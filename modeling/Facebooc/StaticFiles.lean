import Facebooc.Dispatch
import Facebooc.FileTree

set_option autoImplicit false

namespace Facebooc

open CMemory FileTree StringSearch

abbrev Path := List (List UInt8)

abbrev Files := Tree (List UInt8) (List UInt8)

def component (name : List UInt8) : Component (List UInt8) :=
  if name = [] ∨ name = ascii "." then .here else if name = ascii ".." then .up else .down name

-- Path resolution of stat and open.
def resolve (files : Files) (cwd : Path) (filename : List UInt8) : Option Path :=
  if filename = [] then none
  else walk files (if filename.head? = some (chr '/') then [] else cwd) ((filename.splitOn (chr '/')).map component)

-- src/handler/static_handler.c. An entry of static_file_table is the variable p
-- of a call of get_static_file that is over, and the key in it lies in the uri of
-- a request that is gone: which slots hold one is all that is left to be known.
structure StaticTable where
  taken : List Bool
  size : taken.length = initialCapacity
deriving DecidableEq, Repr

def staticTableNew : StaticTable := ⟨List.replicate initialCapacity false, List.length_replicate⟩

def StaticTable.len (table : StaticTable) : Nat := table.taken.count true

def StaticTable.Holds (table : StaticTable) (filename : List UInt8) : Prop :=
  table.taken.getD (getIndex initialCapacity filename) false = true

instance (table : StaticTable) (filename : List UInt8) : Decidable (table.Holds filename) := inferInstanceAs (Decidable (_ = _))

-- Hash_map_get: NULL where the slot of the name is free. The key of the entry in
-- a taken one is compared, whatever its name was.
def staticTableGet (table : StaticTable) (filename : List UInt8) : Except Fault Unit :=
  if table.Holds filename then .error .uninit else .ok ()

-- Hash_map_insert_move behind a lookup that found the slot free. A table that is
-- half full grows first, and growing reads the key of every entry.
def staticTableInsert (table : StaticTable) (filename : List UInt8) : Except Fault StaticTable :=
  if table.len ≥ initialCapacity >>> 1 then .error .uninit
  else .ok ⟨table.taken.set (getIndex initialCapacity filename) true, List.length_set.trans table.size⟩

-- The table behind the call, what is served, and the path that was opened for it.
structure StaticFile where
  table : StaticTable
  fm : Except Fault (Option (List UInt8))
  opened : Option Path

-- An open that stat let through may still be refused.
def getStaticFile (files : Files) (cwd : Path) (openable : Path → Bool) (table : StaticTable) (filename : List UInt8) :
    StaticFile :=
  match staticTableGet table filename with
  | .error fault => ⟨table, .error fault, none⟩
  | .ok _ =>
      match resolve files cwd filename with
      | none => ⟨table, .ok none, none⟩
      | some path =>
          match files.node path with
          | none => ⟨table, .ok none, none⟩
          | some .directory => ⟨table, .ok none, none⟩
          | some (.file content) =>
              if openable path then
                match staticTableInsert table filename with
                | .error fault => ⟨table, .error fault, some path⟩
                | .ok grown => ⟨grown, .ok (some content), some path⟩
              else ⟨table, .ok none, none⟩

-- The handler up to the file it answers with.
def staticHandler (files : Files) (cwd : Path) (openable : Path → Bool) (table : StaticTable) (uri : List UInt8) : StaticFile :=
  if ascii "../" <:+: uri then ⟨table, .ok none, none⟩
  else
    match cstrAt (uri ++ [0]) 1 with
    | .error fault => ⟨table, .error fault, none⟩
    | .ok filename => getStaticFile files cwd openable table filename

theorem dispatch_static (handlers : HashMap Handler) (uri : List UInt8) (made : fbNew = .ok handlers) (clean : 0 ∉ uri)
    (routed : dispatch handlers uri = .ok .staticHandler) :
    ∃ c rest, uri = c :: (ascii "static" ++ chr '/' :: rest) := by
  obtain ⟨same, made', table⟩ := fb_new_handlers
  cases made.symm.trans made'
  cases uri with
  | nil => cases routed
  | cons c text =>
      simp only [List.mem_cons, not_or] at clean
      by_cases slash : chr '/' ∈ text
      · obtain ⟨seg, rest, split, noSlash⟩ := List.eq_append_cons_of_mem slash
        subst split
        simp only [List.mem_append, List.mem_cons, not_or] at clean
        have segment : registered seg = .staticHandler := by
          by_cases fits : seg.length ≤ 32
          · have dir := route_dir_slash c seg rest fits noSlash clean.2.1 clean.2.2.2
            by_cases full : seg.length = 32
            · rw [full, Nat.sub_self, List.replicate_zero, List.append_nil] at dir
              have endless : cstrAt seg 0 = .error .bounds := by rw [cstrAt, List.drop_zero, if_neg clean.2.1]
              simp only [dispatch, dir, endless, bind, Except.bind] at routed
              cases routed
            · obtain ⟨room, spare⟩ : ∃ room, 32 - seg.length = room + 1 := ⟨31 - seg.length, by omega⟩
              rw [spare, List.replicate_succ] at dir
              rw [dispatch_found handlers _ seg _ table dir clean.2.1] at routed
              exact Except.ok.inj routed
          · have text : cstrAt (c :: (seg ++ chr '/' :: rest) ++ [0]) 1 = .ok (seg ++ chr '/' :: rest) := by
              refine cstr_at_append [c] (seg ++ chr '/' :: rest) [] 1 rfl ?_
              simp only [List.mem_append, List.mem_cons, not_or]
              exact clean.2
            have overrun : routeDir (c :: (seg ++ chr '/' :: rest)) = .error .bounds := by
              simp only [routeDir, fetchDir, text, idx_of_append seg rest (chr '/') noSlash, bind, Except.bind]
              rw [if_neg (by rw [List.length_replicate]; exact fits)]
            simp only [dispatch, overrun, bind, Except.bind] at routed
            cases routed
        have only : ∀ entry ∈ handlerTable, entry.2 = .staticHandler → entry.1 = ascii "static" := by decide +kernel
        have name : seg = ascii "static" := only (seg, .staticHandler) (registered_entry seg _ segment (by decide)) rfl
        exact ⟨c, rest, by rw [name]⟩
      · have dir := route_dir_no_slash c text slash clean.2
        rw [dispatch_found handlers _ [] (List.replicate 31 0) table dir List.not_mem_nil] at routed
        exact absurd routed (by decide +kernel)

theorem infix_intercalate {α : Type} (sep last part : List α) (front : List (List α)) (member : part ∈ front) :
    part ++ sep <:+: sep.intercalate (front ++ [last]) := by
  induction front with
  | nil => cases member
  | cons first rest ih =>
      have next : rest ++ [last] ≠ [] := by simp
      rw [List.cons_append, List.intercalate_cons_of_ne_nil next]
      rcases List.mem_cons.mp member with here | later
      · rw [here]
        exact (List.prefix_append _ _).isInfix
      · exact (ih later).trans (List.suffix_append _ _).isInfix

-- A component that is not the last one stands in front of a slash.
theorem split_forward (text : List UInt8) (front : List (List UInt8)) (last : List UInt8)
    (split : text.splitOn (chr '/') = front ++ [last]) (noUp : ¬ ascii "../" <:+: text) :
    ∀ name ∈ front, component name ≠ .up := by
  intro name member upward
  have dots : name = ascii ".." := by
    rw [component] at upward
    split at upward
    · cases upward
    · split at upward
      · assumption
      · cases upward
  have inside := infix_intercalate [chr '/'] last name front member
  rw [← split, List.intercalate_splitOn, dots] at inside
  exact noUp inside

-- How a call of get_static_file ends.
inductive Got (files : Files) (cwd : Path) (openable : Path → Bool) (table : StaticTable) (filename : List UInt8) :
    StaticFile → Prop where
  | held (taken : table.Holds filename) : Got files cwd openable table filename ⟨table, .error .uninit, none⟩
  | missing (free : ¬ table.Holds filename)
      (absent : ∀ path content, resolve files cwd filename = some path → files.node path = some (.file content) →
        openable path = false) :
      Got files cwd openable table filename ⟨table, .ok none, none⟩
  | full (free : ¬ table.Holds filename) (path : Path) (content : List UInt8) (target : resolve files cwd filename = some path)
      (file : files.node path = some (.file content)) (crowded : initialCapacity >>> 1 ≤ table.len) :
      Got files cwd openable table filename ⟨table, .error .uninit, some path⟩
  | served (free : ¬ table.Holds filename) (path : Path) (content : List UInt8) (target : resolve files cwd filename = some path)
      (file : files.node path = some (.file content)) (room : table.len < initialCapacity >>> 1) (grown : StaticTable)
      (inserted : grown.taken = table.taken.set (getIndex initialCapacity filename) true) :
      Got files cwd openable table filename ⟨grown, .ok (some content), some path⟩

theorem get_static_file_got (files : Files) (cwd : Path) (openable : Path → Bool) (table : StaticTable) (filename : List UInt8) :
    Got files cwd openable table filename (getStaticFile files cwd openable table filename) := by
  rw [getStaticFile, staticTableGet]
  by_cases taken : table.Holds filename
  · rw [if_pos taken]
    exact .held taken
  rw [if_neg taken]
  cases target : resolve files cwd filename with
  | none => exact .missing taken fun path _ same => by cases target.symm.trans same
  | some path =>
      have only (other : Path) (same : resolve files cwd filename = some other) : other = path :=
        Option.some.inj (same.symm.trans target)
      cases object : files.node path with
      | none =>
          simp only [object]
          refine .missing taken fun other content same file => ?_
          rw [only other same, object] at file
          cases file
      | some node =>
          cases node with
          | directory =>
              simp only [object]
              refine .missing taken fun other content same file => ?_
              rw [only other same, object] at file
              cases file
          | file content =>
              by_cases opens : openable path = true
              · simp only [object, if_pos opens, staticTableInsert]
                by_cases crowded : table.len ≥ initialCapacity >>> 1
                · rw [if_pos crowded]
                  exact .full taken path content target object crowded
                · rw [if_neg crowded]
                  exact .served taken path content target object (Nat.lt_of_not_le crowded) _ rfl
              · simp only [object, if_neg opens]
                refine .missing taken fun other _ same _ => ?_
                rw [only other same]
                exact Bool.not_eq_true _ ▸ opens

-- A slot that is taken stays taken, and that of a served file is taken.
theorem get_static_file_table (files : Files) (cwd : Path) (openable : Path → Bool) (table : StaticTable)
    (filename : List UInt8) : (∀ other, table.Holds other → (getStaticFile files cwd openable table filename).table.Holds other) ∧
      ∀ content, (getStaticFile files cwd openable table filename).fm = .ok (some content) →
        (getStaticFile files cwd openable table filename).table.Holds filename := by
  have got := get_static_file_got files cwd openable table filename
  generalize getStaticFile files cwd openable table filename = result at got ⊢
  cases got with
  | held | missing | full => exact ⟨fun _ held => held, fun content served => by cases served⟩
  | served free path content target file room grown inserted =>
      have slot : getIndex initialCapacity filename < table.taken.length :=
        table.size ▸ get_index_lt initialCapacity filename (by decide)
      refine ⟨fun other held => ?_, fun _ _ => ?_⟩
      · rw [StaticTable.Holds, List.getD_eq_getElem?_getD] at held ⊢
        rw [inserted, List.getElem?_set]
        split
        · rfl
        · exact held
      · rw [StaticTable.Holds, List.getD_eq_getElem?_getD, inserted, List.getElem?_set_self slot]
        rfl

theorem get_static_file_opened (files : Files) (cwd path : Path) (openable : Path → Bool) (table : StaticTable)
    (filename : List UInt8) (opened : (getStaticFile files cwd openable table filename).opened = some path) :
    resolve files cwd filename = some path ∧ ∃ content, files.node path = some (.file content) := by
  have got := get_static_file_got files cwd openable table filename
  generalize getStaticFile files cwd openable table filename = result at got opened
  cases got with
  | held | missing => cases opened
  | full free found content target file =>
      cases opened
      exact ⟨target, content, file⟩
  | served free found content target file =>
      cases opened
      exact ⟨target, content, file⟩

theorem static_file_contained (handlers : HashMap Handler) (files : Files) (cwd : Path) (openable : Path → Bool)
    (table : StaticTable) (uri filename : List UInt8) (path : Path) (made : fbNew = .ok handlers)
    (clean : 0 ∉ uri) (routed : dispatch handlers uri = .ok .staticHandler) (noUp : ¬ ascii "../" <:+: uri)
    (named : cstrAt (uri ++ [0]) 1 = .ok filename)
    (opened : (getStaticFile files cwd openable table filename).opened = some path) :
    (∃ content, files.node path = some (.file content)) ∧
      ∃ below, below ≠ [] ∧ path = cwd ++ [ascii "static"] ++ below := by
  obtain ⟨c, rest, shape⟩ := dispatch_static handlers uri made clean routed
  subst shape
  have text : filename = ascii "static" ++ chr '/' :: rest := by
    have whole : cstrAt (c :: (ascii "static" ++ chr '/' :: rest) ++ [0]) 1 = .ok (ascii "static" ++ chr '/' :: rest) :=
      cstr_at_append [c] (ascii "static" ++ chr '/' :: rest) [] 1 rfl fun zero => clean (List.mem_cons_of_mem _ zero)
    exact Except.ok.inj (named.symm.trans whole)
  obtain ⟨target, content, file⟩ := get_static_file_opened files cwd path openable table filename opened
  refine ⟨⟨content, file⟩, ?_⟩
  obtain ⟨front, last, split⟩ : ∃ front last, rest.splitOn (chr '/') = front ++ [last] :=
    ⟨_, _, (List.dropLast_append_getLast (List.splitOn_ne_nil _ _)).symm⟩
  have noSlash : chr '/' ∉ ascii "static" := by decide +kernel
  have names : filename.splitOn (chr '/') = ascii "static" :: (front ++ [last]) := by
    rw [text, List.splitOn_append_cons_self_of_not_mem noSlash, split]
  have forward : ∀ name ∈ front, component name ≠ .up := by
    refine split_forward rest front last split fun inside => noUp (inside.trans ?_)
    exact ⟨c :: (ascii "static" ++ [chr '/']), [], by simp⟩
  -- The walk enters static first, and goes up at most with its last component.
  have walked : walk files cwd (.down (ascii "static") :: (front.map component ++ [component last])) = some path := by
    have relative : filename ≠ [] ∧ filename.head? ≠ some (chr '/') := by
      rw [text]
      refine ⟨List.cons_ne_nil _ _, ?_⟩
      change some (chr 's') ≠ some (chr '/')
      decide
    have static : component (ascii "static") = .down (ascii "static") := by decide +kernel
    rw [resolve, if_neg relative.1, if_neg relative.2, names, List.map_cons, List.map_append, static] at target
    exact target
  rw [walk, List.foldlM_cons, Option.bind_eq_bind, Option.bind_eq_some_iff] at walked
  obtain ⟨next, stepped, walked⟩ := walked
  have entered : next = cwd ++ [ascii "static"] := by
    have directory := step_directory files cwd next _ stepped
    simp only [step, directory] at stepped
    split at stepped
    · exact (Option.some.inj stepped).symm
    · cases stepped
  rw [entered] at walked
  refine walk_contained files (front.map component) (component last) _ path ?_ walked (by rw [file]; simp)
  intro part member
  obtain ⟨name, memberName, same⟩ := List.mem_map.mp member
  rw [← same]
  exact forward name memberName

def assets (content : List UInt8) : Files where
  node path :=
    if path = [] ∨ path = [ascii "static"] then some .directory
    else if path = [ascii "static", ascii "a"] then some (.file content)
    else none
  root := rfl
  closed := by
    intro path name present
    by_cases inRoot : path = []
    · simp [inRoot]
    · by_cases inStatic : path = [ascii "static"]
      · simp [inStatic]
      · exfalso
        apply present
        cases path with
        | nil => exact absurd rfl inRoot
        | cons first rest => cases rest with
          | nil =>
              have other : first ≠ ascii "static" := fun same => inStatic (by rw [same])
              simp [other]
          | cons second rest => simp

theorem static_file_asset : ∃ handlers, fbNew = .ok handlers ∧
    (∃ content, (assets [7]).node [ascii "static", ascii "a"] = some (.file content)) ∧
      ∃ below, below ≠ [] ∧ [ascii "static", ascii "a"] = [] ++ [ascii "static"] ++ below := by
  obtain ⟨handlers, made, table⟩ := fb_new_handlers
  have dir := route_dir_slash (chr '/') (ascii "static") (ascii "./a") (by decide) (by decide +kernel)
    (by decide +kernel) (by decide +kernel)
  have routed := dispatch_found handlers (ascii "/static/./a") (ascii "static") (List.replicate 25 0) table dir
    (by decide +kernel)
  rw [show registered (ascii "static") = .staticHandler by decide +kernel] at routed
  exact ⟨handlers, made, static_file_contained handlers (assets [7]) [] (fun _ => true) staticTableNew (ascii "/static/./a")
    (ascii "static/./a") [ascii "static", ascii "a"] made (by decide +kernel) routed (by decide +kernel)
    (by decide +kernel) (by decide +kernel)⟩

end Facebooc
