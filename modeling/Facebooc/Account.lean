import Facebooc.Database
import Facebooc.Header
import Facebooc.Ranking

set_option autoImplicit false

namespace Facebooc

open CMemory Ranking

-- src/models/session.c
structure Session where
  id : Int
  createdAt : Int
  accountId : Int
  sessionId : List UInt8
deriving DecidableEq, Repr

def sessionGetBySId (db : Database) (sid : List UInt8) : Option Session :=
  (db.sessions.find? fun row => row.session = sid).map fun row => ⟨row.id, row.createdAt, row.account, row.session⟩

-- src/models/account.c
structure Account where
  id : Int
  createdAt : Int
  name : BasicString
  email : BasicString
  username : BasicString
deriving DecidableEq, Repr

def newAccountFromDb (id createdAt : Int) (name email username : List UInt8) : Except Fault Account := do
  let name ← base64Decode2str name
  let email ← base64Decode2str email
  let username ← base64Decode2str username
  .ok ⟨id, createdAt, name, email, username⟩

def accountOfRow (row : AccountRow) : Except Fault Account :=
  newAccountFromDb row.id row.createdAt row.name row.email row.username

-- SELECT ... FROM accounts WHERE ..., of which one row is fetched.
def accountSelect (db : Database) (condition : AccountRow → Bool) : Except Fault (Option Account) :=
  match db.accounts.find? condition with
  | none => .ok none
  | some row => do
      let account ← accountOfRow row
      .ok (some account)

def accountGetById (db : Database) (id : Int) : Except Fault (Option Account) :=
  if id = -1 then .ok none else accountSelect db fun row => row.id = id

def accountGetByEmail (db : Database) (email : BasicString) : Except Fault (Option Account) :=
  accountSelect db fun row => row.email = base64Encode email.data

def accountGetBySId (db : Database) (sid : List UInt8) : Except Fault (Option Account) :=
  match sessionGetBySId db sid with
  | none => .ok none
  | some session => accountSelect db fun row => row.id = session.accountId

def accountCheckUsername (db : Database) (username : BasicString) : Bool :=
  !db.accounts.any fun row => row.username = base64Encode username.data

def accountCheckEmail (db : Database) (email : BasicString) : Bool :=
  !db.accounts.any fun row => row.email = base64Encode email.data

-- LIKE of SQLite: % matches any text and _ one character, letters are compared
-- without their ASCII case.
def sqlLike : List UInt8 → List UInt8 → Bool
  | [], text => text = []
  | c :: pattern, text =>
      if c = chr '%' then text.tails.any fun rest => sqlLike pattern rest
      else
        match text with
        | [] => false
        | d :: rest => (c = chr '_' || tolower c = tolower d) && sqlLike pattern rest

def searchWhere (query : BasicString) (row : AccountRow) : Bool :=
  let pattern := ascii "%" ++ base64Encode query.data ++ ascii "%"
  sqlLike pattern row.name || sqlLike pattern row.email || sqlLike pattern row.username

def accountsOfRows : List AccountRow → Except Fault (List Account)
  | [] => .ok []
  | row :: rows => do
      let account ← accountOfRow row
      let accounts ← accountsOfRows rows
      .ok (account :: accounts)

def accountSearch (db : Database) (query : BasicString) (page : Int) : Except Fault (List Account) :=
  let rows := rank AccountRow.createdAt (db.accounts.filter (searchWhere query))
  accountsOfRows ((rows.drop (page * 10).toNat).take 10)

section Passwords

-- sha256_string: the digest comes from OpenSSL, in 64 hexadecimal digits.
variable (sha256 : List UInt8 → List UInt8)

def accountRow (db : Database) (now : Int) (name email username password : BasicString) : AccountRow :=
  ⟨nextRowid (db.accounts.map AccountRow.id), now, base64Encode name.data, base64Encode username.data,
    base64Encode email.data, sha256 password.data⟩

-- A second row with the email violates UNIQUE and is not inserted. A fault
-- while the account is read back comes after the row is stored.
def accountCreate (db : Database) (now : Int) (name email username password : BasicString) :
    Database × Except Fault (Option Account) :=
  if db.accounts.any fun row => row.email = base64Encode email.data then (db, .ok none)
  else
    let inserted := { db with accounts := db.accounts ++ [accountRow sha256 db now name email username password] }
    (inserted, accountGetByEmail inserted email)

def accountAuth (db : Database) (username password : BasicString) : Bool :=
  (db.accounts.find? fun row => row.username = base64Encode username.data).any fun row =>
    sha256 password.data = row.password

-- The 64 characters of a session id. `address` is the address of get_rand,
-- `counter` its static counter.
def randTable : List UInt8 := ascii "0123456789abcdefghijklmnopqrstuvwxyzABCDEFGHIJKLMNOPQRSTUVWXYZ-~"

def getRand (address counter : Nat) : Nat := address * address * (counter + 1) % 2 ^ 64 % address

def genRandomDummyString (address counter len : Nat) : List UInt8 :=
  (List.range len).map fun i => randTable.getD (getRand address (counter + i) % 64) 0

def sessionRow (db : Database) (now account : Int) (sid : List UInt8) : SessionRow :=
  ⟨nextRowid (db.sessions.map SessionRow.id), now, account, sid⟩

def sessionCreate (db : Database) (now : Int) (address counter : Nat) (username password : List UInt8) :
    Database × Nat × Option Session :=
  match db.accounts.find? fun row => row.username = base64Encode username ∧ row.password = sha256 password with
  | none => (db, counter, none)
  | some row =>
      let sid := genRandomDummyString address counter 64
      let inserted := { db with sessions := db.sessions ++ [sessionRow db now row.id sid] }
      (inserted, counter + 64, sessionGetBySId inserted sid)

end Passwords

structure Encoded (row : AccountRow) (name email username : List UInt8) : Prop where
  name : row.name = base64Encode name
  email : row.email = base64Encode email
  username : row.username = base64Encode username

theorem encode_nil_iff (text : List UInt8) : base64Encode text = [] ↔ text = [] := by
  constructor
  · exact fun empty => base64_encode_injective text [] empty
  · rintro rfl
    rfl

theorem encoded_given (row : AccountRow) (name email username : List UInt8) (encoded : Encoded row name email username) :
    (row.name ≠ [] ∧ row.email ≠ [] ∧ row.username ≠ []) ↔ name ≠ [] ∧ email ≠ [] ∧ username ≠ [] := by
  rw [encoded.name, encoded.email, encoded.username]
  simp only [ne_eq, encode_nil_iff]

theorem encoded_row_read (row : AccountRow) (name email username : List UInt8) (encoded : Encoded row name email username)
    (texts : name ≠ [] ∧ email ≠ [] ∧ username ≠ []) :
    accountOfRow row = .ok ⟨row.id, row.createdAt, ⟨name, name.length⟩, ⟨email, email.length⟩,
      ⟨username, username.length⟩⟩ := by
  simp only [accountOfRow, newAccountFromDb, encoded.name, encoded.email, encoded.username,
    base64_round_trip _ texts.1, base64_round_trip _ texts.2.1, base64_round_trip _ texts.2.2, bind, Except.bind]

theorem encoded_row_account (row : AccountRow) (name email username : List UInt8) (account : Account)
    (encoded : Encoded row name email username) (read : accountOfRow row = .ok account) :
    (name ≠ [] ∧ email ≠ [] ∧ username ≠ []) ∧
      account = ⟨row.id, row.createdAt, ⟨name, name.length⟩, ⟨email, email.length⟩, ⟨username, username.length⟩⟩ := by
  have texts : name ≠ [] ∧ email ≠ [] ∧ username ≠ [] := by
    obtain ⟨nameStr, nameRead, read⟩ := (except_bind_ok _ _ _).mp read
    obtain ⟨emailStr, emailRead, read⟩ := (except_bind_ok _ _ _).mp read
    obtain ⟨usernameStr, usernameRead, _⟩ := (except_bind_ok _ _ _).mp read
    refine ⟨?_, ?_, ?_⟩ <;> rintro rfl
    · rw [encoded.name] at nameRead
      cases nameRead
    · rw [encoded.email] at emailRead
      cases emailRead
    · rw [encoded.username] at usernameRead
      cases usernameRead
  have good := encoded_row_read row name email username encoded texts
  exact ⟨texts, Except.ok.inj (read.symm.trans good)⟩

end Facebooc
