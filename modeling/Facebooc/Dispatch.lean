import Facebooc.HashMapRefine
import Facebooc.Server
import Facebooc.TemplateContext

set_option autoImplicit false

namespace Facebooc

open CMemory StringSearch

-- src/utility.c. The text is copied without a terminator of its own, and only
-- when a slash follows.
def fetchDir (dst src : Object) (p : Nat) : Except Fault Object := do
  let text ← cstrAt src p
  match text.idxOf? (chr '/') with
  | none => .ok dst
  | some sep => if sep ≤ dst.length then .ok (text.take sep ++ dst.drop sep) else .error .bounds

-- src/facebooc_server.c
inductive Handler where
  | page (route : Route)
  | staticHandler
deriving DecidableEq, Repr

def handlerTable : List (List UInt8 × Handler) :=
  [(ascii "connect", .page .connect), (ascii "dashboard", .page .dashboard), (ascii "", .page .home),
    (ascii "like", .page .like), (ascii "unlike", .page .unlike), (ascii "login", .page .login),
    (ascii "logout", .page .logout), (ascii "post", .page .post), (ascii "profile", .page .profile),
    (ascii "search", .page .search), (ascii "signup", .page .signup), (ascii "static", .staticHandler)]

def serverAddHandler (handlers : HashMap Handler) (routeName : List UInt8) (handler : Handler) :
    Except Fault (HashMap Handler) := do
  let done ← hashMapInsertMove handlers ⟨freshAddr handlers, routeName, handler⟩
  .ok done.1

def addHandlers : HashMap Handler → List (List UInt8 × Handler) → Except Fault (HashMap Handler)
  | handlers, [] => .ok handlers
  | handlers, (name, func) :: rest => do
      let handlers ← serverAddHandler handlers name func
      addHandlers handlers rest

def fbNew : Except Fault (HashMap Handler) := addHandlers hashMapNew handlerTable

-- The array dir of handle, behind fetch_dir.
def routeDir (uri : List UInt8) : Except Fault Object := fetchDir (List.replicate 32 0) (uri ++ [0]) 1

-- The handler that handle calls for a request; no entry is the default callback.
def dispatch (handlers : HashMap Handler) (uri : List UInt8) : Except Fault Handler := do
  let dir ← routeDir uri
  match ← hashMapGet handlers (← cstrAt dir 0) with
  | none => .ok (.page .notFound)
  | some handler => .ok handler

-- The handler a path segment names.
def registered (seg : List UInt8) : Handler :=
  ((handlerTable.find? fun entry => entry.1 = seg).map Prod.snd).getD (.page .notFound)

def segmentUri (seg : List UInt8) (rest : Option (List UInt8)) : List UInt8 :=
  chr '/' :: (seg ++ match rest with
    | none => []
    | some rest => chr '/' :: rest)

theorem add_handlers_represents (table : List (List UInt8 × Handler)) (handlers : HashMap Handler) (f : FinMap Handler)
    (rep : Represents handlers f) (names : (table.map Prod.fst).Nodup) (absent : ∀ entry ∈ table, f entry.1 = none)
    (few : handlers.len + table.length < 2 ^ 31) :
    ∃ next, addHandlers handlers table = .ok next ∧ Represents next (f.putTable table) := by
  induction table generalizing handlers f with
  | nil => exact ⟨handlers, rfl, rep⟩
  | cons entry rest ih =>
      obtain ⟨name, func⟩ := entry
      simp only [List.map_cons, List.nodup_cons, List.length_cons] at names few
      have unused := fresh_addr_unused handlers
      obtain ⟨next, run, nextRep, nextLen, _⟩ := op_represents handlers f (.insertMove ⟨freshAddr handlers, name, func⟩) rep
        (absent _ List.mem_cons_self) (by omega) unused unused
      obtain ⟨last, added, lastRep⟩ := ih next (f.put name func) nextRep names.2
        (by
          intro later member
          have other : later.1 ≠ name := fun same => names.1 (same ▸ List.mem_map_of_mem member)
          rw [put_other _ _ _ _ other]
          exact absent later (List.mem_cons_of_mem _ member))
        (by omega)
      refine ⟨last, ?_, lastRep⟩
      change hashMapInsertMove handlers ⟨freshAddr handlers, name, func⟩ = .ok (next, true) at run
      simp only [addHandlers, serverAddHandler, run, bind, Except.bind]
      exact added

theorem fb_new_handlers : ∃ handlers, fbNew = .ok handlers ∧
    ∀ name, hashMapGet handlers name = .ok ((handlerTable.find? fun entry => entry.1 = name).map Prod.snd) := by
  have names : (handlerTable.map Prod.fst).Nodup := by decide +kernel
  obtain ⟨handlers, run, rep⟩ := add_handlers_represents handlerTable hashMapNew FinMap.empty represents_new names
    (fun _ _ => rfl) (by change 0 + 12 < 2 ^ 31; omega)
  refine ⟨handlers, run, fun name => ?_⟩
  rw [represents_get handlers _ name rep, put_table_find handlerTable FinMap.empty name names]
  cases handlerTable.find? fun entry => entry.1 = name <;> rfl

theorem registered_entry (seg : List UInt8) (handler : Handler) (found : registered seg = handler)
    (known : handler ≠ .page .notFound) : (seg, handler) ∈ handlerTable := by
  rw [registered] at found
  cases entryFound : handlerTable.find? fun entry => entry.1 = seg with
  | none =>
      rw [entryFound] at found
      exact absurd found.symm known
  | some entry =>
      rw [entryFound] at found
      have key : entry.1 = seg := by simpa using List.find?_some entryFound
      have member := List.mem_of_find?_eq_some entryFound
      rw [← key, ← found]
      exact member

theorem registered_home (seg : List UInt8) (home : registered seg = .page .home) : seg = [] := by
  have only : ∀ entry ∈ handlerTable, entry.2 = .page .home → entry.1 = [] := by decide +kernel
  exact only (seg, .page .home) (registered_entry seg _ home (by decide)) rfl

theorem route_dir_slash (c : UInt8) (seg rest : List UInt8) (fits : seg.length ≤ 32) (noSlash : chr '/' ∉ seg)
    (clean : 0 ∉ seg) (restClean : 0 ∉ rest) :
    routeDir (c :: (seg ++ chr '/' :: rest)) = .ok (seg ++ List.replicate (32 - seg.length) 0) := by
  have text : cstrAt (c :: (seg ++ chr '/' :: rest) ++ [0]) 1 = .ok (seg ++ chr '/' :: rest) := by
    refine cstr_at_append [c] (seg ++ chr '/' :: rest) [] 1 rfl ?_
    simp only [List.mem_append, List.mem_cons, not_or]
    exact ⟨clean, by decide, restClean⟩
  simp only [routeDir, fetchDir, text, idx_of_append seg rest (chr '/') noSlash, bind, Except.bind]
  rw [if_pos (by rw [List.length_replicate]; exact fits), List.take_left, List.drop_replicate]

theorem route_dir_no_slash (c : UInt8) (seg : List UInt8) (noSlash : chr '/' ∉ seg) (clean : 0 ∉ seg) :
    routeDir (c :: seg) = .ok (List.replicate 32 0) := by
  have text : cstrAt (c :: seg ++ [0]) 1 = .ok seg := cstr_at_append [c] seg [] 1 rfl clean
  simp only [routeDir, fetchDir, text, List.idxOf?_eq_none_iff.mpr noSlash, bind, Except.bind]

theorem dispatch_found (handlers : HashMap Handler) (uri name spare : List UInt8)
    (table : ∀ name, hashMapGet handlers name = .ok ((handlerTable.find? fun entry => entry.1 = name).map Prod.snd))
    (dir : routeDir uri = .ok (name ++ 0 :: spare)) (clean : 0 ∉ name) : dispatch handlers uri = .ok (registered name) := by
  simp only [dispatch, dir, cstr_at_start name spare clean, table name, registered, bind, Except.bind]
  cases handlerTable.find? fun entry => entry.1 = name <;> rfl

-- Without a slash behind it the segment is not copied, and the request goes to
-- the home page.
theorem dispatch_iff (seg : List UInt8) (rest : Option (List UInt8)) (fits : seg.length ≤ 31) (noSlash : chr '/' ∉ seg)
    (clean : 0 ∉ segmentUri seg rest) : ∃ handlers, fbNew = .ok handlers ∧
      (dispatch handlers (segmentUri seg rest) = .ok (registered seg) ↔ rest ≠ none ∨ seg = []) := by
  obtain ⟨handlers, made, table⟩ := fb_new_handlers
  refine ⟨handlers, made, ?_⟩
  cases rest with
  | some rest =>
      simp only [segmentUri, List.mem_cons, List.mem_append, not_or] at clean
      have dir := route_dir_slash (chr '/') seg rest (by omega) noSlash clean.2.1 clean.2.2.2
      have room : 32 - seg.length = (31 - seg.length) + 1 := by omega
      rw [room, List.replicate_succ] at dir
      exact iff_of_true (dispatch_found handlers _ seg _ table dir clean.2.1) (.inl (by simp))
  | none =>
      simp only [segmentUri, List.append_nil, List.mem_cons, not_or] at clean ⊢
      have dir := route_dir_no_slash (chr '/') seg noSlash clean.2
      rw [dispatch_found handlers _ [] (List.replicate 31 0) table dir List.not_mem_nil]
      constructor
      · intro same
        exact .inr (registered_home seg (Except.ok.inj same).symm)
      · rintro (present | rfl)
        · exact absurd rfl present
        · rfl

theorem dispatch_login : ∃ handlers, fbNew = .ok handlers ∧
    (dispatch handlers (segmentUri (ascii "login") (some [])) = .ok (registered (ascii "login")) ↔
      (some [] : Option (List UInt8)) ≠ none ∨ ascii "login" = []) :=
  dispatch_iff (ascii "login") (some []) (by decide) (by decide +kernel) (by decide +kernel)

-- The request for "/login" is answered with the home page.
theorem dispatch_lost : ∃ handlers, fbNew = .ok handlers ∧ registered (ascii "login") = .page .login ∧
    dispatch handlers (segmentUri (ascii "login") none) = .ok (.page .home) ∧
    dispatch handlers (segmentUri (ascii "login") none) ≠ .ok (registered (ascii "login")) := by
  obtain ⟨handlers, made, table⟩ := fb_new_handlers
  have dir := route_dir_no_slash (chr '/') (ascii "login") (by decide +kernel) (by decide +kernel)
  have home := dispatch_found handlers _ [] (List.replicate 31 0) table dir List.not_mem_nil
  have named : registered (ascii "login") = .page .login := by decide +kernel
  refine ⟨handlers, made, named, home, fun same => ?_⟩
  exact absurd (home.symm.trans same) (by decide +kernel)

end Facebooc
