import Facebooc.ModularWindow
import Facebooc.SessionRuns

set_option autoImplicit false

namespace Facebooc

open CMemory Runs

-- The id of the j-th session of a server process.
def sidAt (address j : Nat) : List UInt8 := genRandomDummyString address (64 * j) 64

-- The counter of get_rand is an int.
def SidsDistinct (address : Nat) : Prop :=
  ∀ i j, i < j → 64 * (j + 1) < 2 ^ 31 → sidAt address i ≠ sidAt address j

structure Credentials where
  username : List UInt8
  password : List UInt8
deriving DecidableEq, Repr

section Passwords

variable (sha256 : List UInt8 → List UInt8)

def Selects (db : Database) (credentials : Credentials) (row : AccountRow) : Prop :=
  db.accounts.find? (fun row => row.username = base64Encode credentials.username ∧
    row.password = sha256 credentials.password) = some row

def createNext (address : Nat) (state : Database × Nat) (call : Int × Credentials) : Database × Nat :=
  let created := sessionCreate sha256 state.1 call.1 address state.2 call.2.username call.2.password
  (created.1, created.2.1)

-- After some sessions of the process, the next one is not the one that its
-- fresh id finds, but an earlier one of another account.
def TakenOver (address : Nat) (db : Database) (victim thief : Credentials) (owner : AccountRow) : Prop :=
  ∃ (calls : List (Int × Credentials)) (session : Session),
    (∀ call ∈ calls, call.2 = victim) ∧ 64 * (calls.length + 1) < 2 ^ 31 ∧
      let state := run (createNext sha256 address) (db, 0) calls
      (sessionCreate sha256 state.1 0 address state.2 thief.username thief.password).2.2 = some session ∧
        session.accountId = owner.id

end Passwords

theorem sid_repeats (address : Nat) (positive : 0 < address) :
    ∃ i j, i < j ∧ 64 * (j + 1) < 2 ^ 31 ∧ sidAt address i = sidAt address j := by
  obtain ⟨i, j, before, bound, digits⟩ := ModularWindow.window_repeats (2 ^ 64) address 64 (address * address) 64
    (fun i => 64 * i + 1) (by decide) positive (by decide)
  refine ⟨i, j, before, by omega, ?_⟩
  rw [sidAt, sidAt, genRandomDummyString, genRandomDummyString]
  apply List.map_congr_left
  intro s member
  have same := digits s (List.mem_range.mp member)
  rw [getRand, getRand, Nat.add_right_comm (64 * i), Nat.add_right_comm (64 * j), same]

theorem create_next_selected (sha256 : List UInt8 → List UInt8) (address : Nat) (db : Database) (counter : Nat)
    (now : Int) (credentials : Credentials) (row : AccountRow) (selects : Selects sha256 db credentials row) :
    createNext sha256 address (db, counter) (now, credentials) =
      ({ db with sessions := db.sessions ++ [sessionRow db now row.id (genRandomDummyString address counter 64)] },
        counter + 64) := by
  simp only [createNext, sessionCreate]
  rw [Selects] at selects
  simp only [selects]

-- n sessions of one account.
structure Opened (address : Nat) (db : Database) (owner : AccountRow) (n : Nat) (state : Database × Nat) : Prop where
  accounts : state.1.accounts = db.accounts
  counter : state.2 = 64 * n
  sessions : state.1.sessions.map sessionPair = (List.range n).map fun k => (sidAt address k, owner.id)

theorem opened_run (sha256 : List UInt8 → List UInt8) (address : Nat) (db : Database) (victim : Credentials)
    (owner : AccountRow) (noSessions : db.sessions = []) (selects : Selects sha256 db victim owner) (n : Nat) :
    Opened address db owner n (run (createNext sha256 address) (db, 0) (List.replicate n (0, victim))) := by
  induction n with
  | zero => exact ⟨rfl, rfl, by rw [List.replicate_zero, run, List.foldl_nil, noSessions]; rfl⟩
  | succ n ih =>
      rw [List.replicate_succ', run_snoc]
      generalize run (createNext sha256 address) (db, 0) (List.replicate n (0, victim)) = state at ih
      obtain ⟨now, counter⟩ := state
      obtain ⟨accounts, count, sessions⟩ := ih
      simp only at accounts count sessions
      have still : Selects sha256 now victim owner := by
        rw [Selects, accounts]
        exact selects
      rw [create_next_selected sha256 address now counter 0 victim owner still, count]
      refine ⟨accounts, by simp only; omega, ?_⟩
      simp only [List.map_append, List.map_cons, List.map_nil, sessions, List.range_succ]
      rfl

theorem sid_found (address : Nat) (owner : Int) (rows : List SessionRow) (i j : Nat) (before : i < j)
    (same : sidAt address i = sidAt address j)
    (sessions : rows.map sessionPair = (List.range j).map fun k => (sidAt address k, owner)) (fresh : SessionRow) :
    ∃ row, (rows ++ [fresh]).find? (fun row => row.session = sidAt address j) = some row ∧ row.account = owner := by
  have listed : (sidAt address i, owner) ∈ rows.map sessionPair := by
    rw [sessions]
    exact List.mem_map.mpr ⟨i, List.mem_range.mpr before, rfl⟩
  obtain ⟨early, member, pair⟩ := List.mem_map.mp listed
  have known : (rows.find? fun row => row.session = sidAt address j).isSome := by
    rw [List.find?_isSome]
    refine ⟨early, member, decide_eq_true ?_⟩
    rw [← same]
    exact congrArg Prod.fst pair
  obtain ⟨row, found⟩ := Option.isSome_iff_exists.mp known
  refine ⟨row, by rw [List.find?_append, found]; rfl, ?_⟩
  have owned : sessionPair row ∈ (List.range j).map fun k => (sidAt address k, owner) := by
    rw [← sessions]
    exact List.mem_map_of_mem (List.mem_of_find?_eq_some found)
  obtain ⟨k, _, pair⟩ := List.mem_map.mp owned
  exact (congrArg Prod.snd pair).symm

-- There are fewer windows of 64 characters than an int can count, at whatever
-- address get_rand was loaded.
theorem sids_never_distinct (sha256 : List UInt8 → List UInt8) (address : Nat) (positive : 0 < address) :
    ¬ SidsDistinct address ∧ ∀ db victim thief owner other, db.sessions = [] → Selects sha256 db victim owner →
      Selects sha256 db thief other → TakenOver sha256 address db victim thief owner := by
  obtain ⟨i, j, before, inInt, same⟩ := sid_repeats address positive
  refine ⟨fun distinct => distinct i j before inInt same, ?_⟩
  intro db victim thief owner other noSessions selectsOwner selectsOther
  have opened := opened_run sha256 address db victim owner noSessions selectsOwner j
  -- The victim logs in j times; the next session gets the id of its i-th.
  refine ⟨List.replicate j (0, victim), ?_⟩
  generalize run (createNext sha256 address) (db, 0) (List.replicate j (0, victim)) = state at opened
  obtain ⟨now, counter⟩ := state
  obtain ⟨accounts, count, sessions⟩ := opened
  simp only at accounts count sessions
  obtain ⟨row, found, owned⟩ := sid_found address owner.id now.sessions i j before same sessions
    (sessionRow now 0 other.id (sidAt address j))
  refine ⟨⟨row.id, row.createdAt, row.account, row.session⟩, ?_, by rwa [List.length_replicate], ?_, owned⟩
  · intro call member
    rw [List.eq_of_mem_replicate member]
  · rw [Selects, ← accounts] at selectsOther
    simp only [sessionCreate, selectsOther, sessionGetBySId, count]
    rw [sidAt] at found
    rw [found]
    rfl

def aliceRow : AccountRow := ⟨1, 0, [], base64Encode (ascii "alice"), base64Encode (ascii "a@x.org"), ascii "apple"⟩

def bobRow : AccountRow := ⟨2, 0, [], base64Encode (ascii "bob"), base64Encode (ascii "b@x.org"), ascii "banana"⟩

def twoAccounts : Database := { Database.empty with accounts := [aliceRow, bobRow] }

theorem sids_never_distinct_bob : ¬ SidsDistinct 4198400 ∧
    TakenOver id 4198400 twoAccounts ⟨ascii "alice", ascii "apple"⟩ ⟨ascii "bob", ascii "banana"⟩ aliceRow := by
  obtain ⟨repeated, taken⟩ := sids_never_distinct id 4198400 (by decide)
  exact ⟨repeated, taken twoAccounts _ _ aliceRow bobRow rfl (by rw [Selects]; decide +kernel) (by rw [Selects]; decide +kernel)⟩

-- A function of a position independent executable.
theorem sids_repeat : sidAt 0x5555555592a0 1 = sidAt 0x5555555592a0 4 ∧ ¬ SidsDistinct 0x5555555592a0 := by
  have same : sidAt 0x5555555592a0 1 = sidAt 0x5555555592a0 4 := by decide +kernel
  exact ⟨same, fun distinct => distinct 1 4 (by decide) (by decide) same⟩

end Facebooc
