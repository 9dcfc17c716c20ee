import Facebooc.HashMapOverwrite

set_option autoImplicit false

namespace Facebooc

open CMemory LinearProbe

-- What a rendering is made of before any value is filled in. The keys that a
-- status switcher tests are ghost state.
inductive Part where
  | text (bytes : List UInt8)
  | hole (key : List UInt8)
  | tested (key : List UInt8)
deriving DecidableEq, Repr

abbrev Values := List UInt8 → Option Page

def Part.fill (values : Values) : Part → List Chunk
  | .text bytes => [.text bytes]
  | .hole key => ((values key).map (Chunk.value key)).toList
  | .tested _ => []

def fillChunks (values : Values) (parts : List Part) : List Chunk := parts.flatMap (Part.fill values)

def fill (values : Values) (parts : List Part) : Page := (fillChunks values parts).flatMap Chunk.page

def testedKeys (parts : List Part) : List (List UInt8) :=
  parts.filterMap fun part =>
    match part with
    | .tested key => some key
    | _ => none

-- The engine without a context: of the values it sees only those that a status
-- switcher asks for.
section Parts

variable (nested : List UInt8 → Except Fault (List Part)) (status : List UInt8 → Option (List UInt8))

def whenParts (o : Object) (segment : Nat) : Except Fault (Object × List Part) := do
  let (o, spc) ← cutAtSpace o segment
  let key ← cstrAt o segment
  match status key with
  | none => .ok (o, [.tested key])
  | some statusValue =>
      let segment := spc + 1
      let (o, spc) ← cutAtSpace o segment
      if statusValue = (← cstrAt o segment) then
        let o ← dropLastChar o (spc + 1)
        .ok (o, [.tested key, .text (← cstrAt o (spc + 1))])
      else .ok (o, [.tested key])

def directiveParts (o : Object) (segment : Nat) : Except Fault (Object × List Part × Option Bool) := do
  let text ← cstrAt o segment
  if text.head? = some (chr '{') then .ok (o, [.hole text.tail], some true)
  else if text.head? = some (chr '%') then
    if (ascii "include").isPrefixOf text.tail then
      let o ← dropLastChar o (segment + 9)
      .ok (o, ← nested (← cstrAt o (segment + 9)), some true)
    else if (ascii "when").isPrefixOf text.tail then
      let (o, parts) ← whenParts status o (segment + 6)
      .ok (o, parts, some true)
    else .ok (o, [], none)
  else .ok (o, [.text (ascii "\x7b")], some false)

def loopParts : Nat → Object → Nat → Except Fault (List Part)
  | 0, _, _ => .error .loop
  | rounds + 1, o, pos => do
      match ← strtokR o pos (chr '}') with
      | (none, _, _) => .ok []
      | (some segment, o, pos) =>
          match ← directiveParts nested status o segment with
          | (_, parts, none) => .ok parts
          | (o, parts, some rep) =>
              match ← strtokR o pos (chr '{') with
              | (none, _, _) => .ok parts
              | (some segment, o, pos) =>
                  let text ← cstrAt o segment
                  let literal := if rep then [.text text.tail] else [.text (ascii "\x7d"), .text text]
                  let rest ← loopParts rounds o pos
                  .ok (parts ++ literal ++ rest)

end Parts

def templateParts (files : List UInt8 → Option (List UInt8)) (status : List UInt8 → Option (List UInt8)) :
    Nat → List UInt8 → Except Fault (List Part)
  | 0, _ => .error .loop
  | depth + 1, filename =>
      match readfile files filename with
      | none => .ok []
      | some buff => do
          match ← strtokR buff 0 (chr '{') with
          | (none, _, _) => .error .null
          | (some segment, o, pos) =>
              let text ← cstrAt o (segment + 1)
              let rest ← loopParts (templateParts files status depth) status (buff.length + 1) o pos
              .ok (.text text :: rest)

def statusOf (values : Values) (key : List UInt8) : Option (List UInt8) := (values key).map pageBytes

section Fill

variable (context : HashMap Page) (values : Values) (found : ∀ key, hashMapGet context key = .ok (values key))

include found

theorem template_value_fill (key : List UInt8) : templateValue context key = .ok (fillChunks values [.hole key]) := by
  rw [templateValue, found]
  simp only [bind, Except.bind, fillChunks, List.flatMap_cons, List.flatMap_nil, List.append_nil, Part.fill]
  cases values key <;> rfl

theorem template_when_fill (o : Object) (segment : Nat) : templateWhen context o segment =
    (whenParts (statusOf values) o segment).map fun made => (made.1, fillChunks values made.2) := by
  rw [templateWhen, whenParts]
  cases cutAtSpace o segment with
  | error fault => rfl
  | ok first =>
      simp only [bind, Except.bind]
      cases cstrAt first.1 segment with
      | error fault => rfl
      | ok key =>
          simp only [found, statusOf]
          cases values key with
          | none => rfl
          | some page =>
              simp only [Option.map_some]
              cases cutAtSpace first.1 (first.2 + 1) with
              | error fault => rfl
              | ok second =>
                  simp only
                  cases cstrAt second.1 (first.2 + 1) with
                  | error fault => rfl
                  | ok wanted =>
                      simp only
                      split
                      · cases dropLastChar second.1 (second.2 + 1) with
                        | error fault => rfl
                        | ok last =>
                            simp only
                            cases cstrAt last (second.2 + 1) <;> rfl
                      · rfl

theorem template_directive_fill (nested : List UInt8 → Except Fault (List Chunk))
    (nestedParts : List UInt8 → Except Fault (List Part))
    (inner : ∀ filename, nested filename = (nestedParts filename).map (fillChunks values)) (o : Object) (segment : Nat) :
    templateDirective nested context o segment =
      (directiveParts nestedParts (statusOf values) o segment).map fun made =>
        (made.1, fillChunks values made.2.1, made.2.2) := by
  rw [templateDirective, directiveParts]
  cases cstrAt o segment with
  | error fault => rfl
  | ok text =>
      simp only [bind, Except.bind]
      split
      · rw [template_value_fill context values found]
        rfl
      · split
        · split
          · cases dropLastChar o (segment + 9) with
            | error fault => rfl
            | ok cut =>
                simp only
                cases cstrAt cut (segment + 9) with
                | error fault => rfl
                | ok filename =>
                    simp only [inner]
                    cases nestedParts filename <;> rfl
          · split
            · rw [template_when_fill context values found]
              cases whenParts (statusOf values) o (segment + 6) <;> rfl
            · rfl
        · rfl

theorem template_loop_fill (nested : List UInt8 → Except Fault (List Chunk))
    (nestedParts : List UInt8 → Except Fault (List Part))
    (inner : ∀ filename, nested filename = (nestedParts filename).map (fillChunks values)) (rounds : Nat) (o : Object)
    (pos : Nat) : templateLoop nested context rounds o pos =
      (loopParts nestedParts (statusOf values) rounds o pos).map (fillChunks values) := by
  induction rounds generalizing o pos with
  | zero => rfl
  | succ rounds ih =>
      rw [templateLoop, loopParts]
      cases strtokR o pos (chr '}') with
      | error fault => rfl
      | ok taken =>
          obtain ⟨token, o, pos⟩ := taken
          cases token with
          | none => rfl
          | some segment =>
              simp only [bind, Except.bind]
              rw [template_directive_fill context values found nested nestedParts inner]
              cases directiveParts nestedParts (statusOf values) o segment with
              | error fault => rfl
              | ok made =>
                  obtain ⟨o, parts, rep⟩ := made
                  cases rep with
                  | none => rfl
                  | some rep =>
                      simp only [Except.map]
                      cases strtokR o pos (chr '{') with
                      | error fault => rfl
                      | ok taken =>
                          obtain ⟨token, o, pos⟩ := taken
                          cases token with
                          | none => rfl
                          | some segment =>
                              simp only
                              cases cstrAt o segment with
                              | error fault => rfl
                              | ok text =>
                                  simp only [ih]
                                  cases loopParts nestedParts (statusOf values) rounds o pos with
                                  | error fault => rfl
                                  | ok rest => cases rep <;> simp [Except.map, fillChunks, Part.fill]

theorem template_chunks_fill (files : List UInt8 → Option (List UInt8)) (depth : Nat) (filename : List UInt8) :
    templateChunks files context depth filename =
      (templateParts files (statusOf values) depth filename).map (fillChunks values) := by
  induction depth generalizing filename with
  | zero => rfl
  | succ depth ih =>
      rw [templateChunks, templateParts]
      cases readfile files filename with
      | none => rfl
      | some buff =>
          simp only
          cases strtokR buff 0 (chr '{') with
          | error fault => rfl
          | ok taken =>
              obtain ⟨token, o, pos⟩ := taken
              cases token with
              | none => rfl
              | some segment =>
                  simp only [bind, Except.bind]
                  cases cstrAt o (segment + 1) with
                  | error fault => rfl
                  | ok text =>
                      simp only [template_loop_fill context values found _ _ ih]
                      cases loopParts (templateParts files (statusOf values) depth) (statusOf values) (buff.length + 1) o
                        pos <;> rfl

theorem template_render_fill (files : List UInt8 → Option (List UInt8)) (depth : Nat) (filename : List UInt8) :
    templateRender files depth ⟨filename, context⟩ =
      (templateParts files (statusOf values) depth filename).map (fill values) := by
  rw [templateRender, template_chunks_fill context values found]
  cases templateParts files (statusOf values) depth filename <;> rfl

end Fill

theorem tested_keys_append (parts more : List Part) : testedKeys (parts ++ more) = testedKeys parts ++ testedKeys more := by
  rw [testedKeys, List.filterMap_append]
  rfl

-- A run asks for the values of the keys it has tested and for no others, so it
-- is the same run for every status that agrees on these.
section Agree

variable (status status' : List UInt8 → Option (List UInt8))

theorem when_parts_agree (o after : Object) (segment : Nat) (parts : List Part)
    (run : whenParts status o segment = .ok (after, parts)) (agree : ∀ key ∈ testedKeys parts, status key = status' key) :
    whenParts status' o segment = .ok (after, parts) := by
  obtain ⟨first, cutFirst, run⟩ := (except_bind_ok _ _ _).mp run
  obtain ⟨key, readKey, run⟩ := (except_bind_ok _ _ _).mp run
  refine (except_bind_ok _ _ _).mpr ⟨first, cutFirst, (except_bind_ok _ _ _).mpr ⟨key, readKey, ?_⟩⟩
  have asked : key ∈ testedKeys parts := by
    cases found : status key with
    | none =>
        rw [found] at run
        cases run
        exact List.mem_singleton_self key
    | some statusValue =>
        rw [found] at run
        obtain ⟨second, _, run⟩ := (except_bind_ok _ _ _).mp run
        obtain ⟨wanted, _, run⟩ := (except_bind_ok _ _ _).mp run
        split at run
        · obtain ⟨last, _, run⟩ := (except_bind_ok _ _ _).mp run
          obtain ⟨text, _, run⟩ := (except_bind_ok _ _ _).mp run
          cases run
          exact List.mem_singleton_self key
        · cases run
          exact List.mem_singleton_self key
  rw [← agree key asked]
  exact run

variable (nested nested' : List UInt8 → Except Fault (List Part))
  (inner : ∀ filename parts, nested filename = .ok parts → (∀ key ∈ testedKeys parts, status key = status' key) →
    nested' filename = .ok parts)

include inner

theorem directive_parts_agree (o after : Object) (segment : Nat) (parts : List Part) (rep : Option Bool)
    (run : directiveParts nested status o segment = .ok (after, parts, rep))
    (agree : ∀ key ∈ testedKeys parts, status key = status' key) :
    directiveParts nested' status' o segment = .ok (after, parts, rep) := by
  obtain ⟨text, read, run⟩ := (except_bind_ok _ _ _).mp run
  refine (except_bind_ok _ _ _).mpr ⟨text, read, ?_⟩
  split at run
  · rw [if_pos ‹_›]
    exact run
  · rw [if_neg ‹_›]
    split at run
    · rw [if_pos ‹_›]
      split at run
      · rw [if_pos ‹_›]
        obtain ⟨cut, dropped, run⟩ := (except_bind_ok _ _ _).mp run
        obtain ⟨filename, named, run⟩ := (except_bind_ok _ _ _).mp run
        obtain ⟨included, rendered, run⟩ := (except_bind_ok _ _ _).mp run
        cases run
        exact (except_bind_ok _ _ _).mpr ⟨_, dropped, (except_bind_ok _ _ _).mpr ⟨filename, named,
          (except_bind_ok _ _ _).mpr ⟨parts, inner filename parts rendered agree, rfl⟩⟩⟩
      · rw [if_neg ‹_›]
        split at run
        · rw [if_pos ‹_›]
          obtain ⟨⟨switched, made⟩, switch, run⟩ := (except_bind_ok _ _ _).mp run
          cases run
          exact (except_bind_ok _ _ _).mpr ⟨_, when_parts_agree status status' o _ _ _ switch agree, rfl⟩
        · rw [if_neg ‹_›]
          exact run
    · rw [if_neg ‹_›]
      exact run

theorem loop_parts_agree (rounds : Nat) (o : Object) (pos : Nat) (parts : List Part)
    (run : loopParts nested status rounds o pos = .ok parts) (agree : ∀ key ∈ testedKeys parts, status key = status' key) :
    loopParts nested' status' rounds o pos = .ok parts := by
  induction rounds generalizing o pos parts with
  | zero => cases run
  | succ rounds ih =>
      obtain ⟨⟨token, first, next⟩, taken, run⟩ := (except_bind_ok _ _ _).mp run
      refine (except_bind_ok _ _ _).mpr ⟨_, taken, ?_⟩
      cases token with
      | none => exact run
      | some segment =>
          obtain ⟨⟨second, made, rep⟩, directive, run⟩ := (except_bind_ok _ _ _).mp run
          have here := directive_parts_agree status status' nested nested' inner first second segment made rep directive
          cases rep with
          | none =>
              cases run
              exact (except_bind_ok _ _ _).mpr ⟨_, here agree, rfl⟩
          | some rep =>
              obtain ⟨⟨token, third, next⟩, taken, run⟩ := (except_bind_ok _ _ _).mp run
              cases token with
              | none =>
                  cases run
                  exact (except_bind_ok _ _ _).mpr ⟨_, here agree, (except_bind_ok _ _ _).mpr ⟨_, taken, rfl⟩⟩
              | some segment =>
                  obtain ⟨text, read, run⟩ := (except_bind_ok _ _ _).mp run
                  obtain ⟨later, looped, run⟩ := (except_bind_ok _ _ _).mp run
                  cases run
                  simp only [tested_keys_append, List.mem_append] at agree
                  have again := ih third next later looped fun key asked => agree key (.inr asked)
                  refine (except_bind_ok _ _ _).mpr ⟨_, here fun key asked => agree key (.inl (.inl asked)), ?_⟩
                  exact (except_bind_ok _ _ _).mpr ⟨_, taken, (except_bind_ok _ _ _).mpr ⟨text, read,
                    (except_bind_ok _ _ _).mpr ⟨later, again, rfl⟩⟩⟩

end Agree

theorem template_parts_agree (files : List UInt8 → Option (List UInt8))
    (status status' : List UInt8 → Option (List UInt8)) (depth : Nat) (filename : List UInt8) (parts : List Part)
    (run : templateParts files status depth filename = .ok parts)
    (agree : ∀ key ∈ testedKeys parts, status key = status' key) :
    templateParts files status' depth filename = .ok parts := by
  induction depth generalizing filename parts with
  | zero => cases run
  | succ depth ih =>
      rw [templateParts] at run ⊢
      split at run
      · exact run
      · obtain ⟨⟨token, o, pos⟩, taken, run⟩ := (except_bind_ok _ _ _).mp run
        refine (except_bind_ok _ _ _).mpr ⟨_, taken, ?_⟩
        cases token with
        | none => exact run
        | some segment =>
            obtain ⟨text, read, run⟩ := (except_bind_ok _ _ _).mp run
            obtain ⟨rest, looped, run⟩ := (except_bind_ok _ _ _).mp run
            cases run
            have again := loop_parts_agree status status' _ _ ih _ _ _ _ looped agree
            exact (except_bind_ok _ _ _).mpr ⟨text, read, (except_bind_ok _ _ _).mpr ⟨rest, again, rfl⟩⟩

def contextValue (context : HashMap Page) (key : List UInt8) : Option Page :=
  match hashMapGet context key with
  | .ok value => value
  | .error _ => none

theorem context_value_found (context : HashMap Page) (inv : RepInv context) (key : List UInt8) :
    hashMapGet context key = .ok (contextValue context key) := by
  obtain ⟨value, got⟩ := get_total context key inv
  rw [contextValue, got]

theorem context_value_stored (context : HashMap Page) (key : List UInt8) (page : Page) (inv : RepInv context)
    (found : contextValue context key = some page) : ∃ entry ∈ contents context.entries, entry.value = page := by
  have got := context_value_found context inv key
  rw [found] at got
  rcases get_spec context key inv with ⟨absent, _⟩ | ⟨entry, member, _, result⟩
  · cases absent.symm.trans got
  · cases result.symm.trans got
    exact ⟨entry, member, rfl⟩

theorem fill_value (values : Values) (parts : List Part) (key : List UInt8) (page : Page)
    (member : .value key page ∈ fillChunks values parts) : values key = some page := by
  obtain ⟨part, _, filled⟩ := List.mem_flatMap.mp member
  cases part with
  | text bytes => cases List.mem_singleton.mp filled
  | tested asked => cases filled
  | hole asked =>
      obtain ⟨value, found, same⟩ := Option.map_eq_some_iff.mp (Option.mem_toList.mp filled)
      cases same
      exact found

-- Text of the page that someone wrote comes in through a value of the context.
theorem template_render_shows (files : List UInt8 → Option (List UInt8)) (depth : Nat) (filename : List UInt8)
    (template : Template) (pairs : List (String × Page)) (page : Page) (ok : Source → List UInt8 → Prop)
    (clean : ∀ source bytes, ok source bytes → 0 ∉ bytes) (filled : Filled (templateNew filename) template pairs)
    (shows : ∀ pair ∈ pairs, Shows ok pair.2) (run : templateRender files depth template = .ok page) : Shows ok page := by
  have inv := filled.usable.inv
  rw [template_render_fill template.context _ (context_value_found _ inv)] at run
  obtain ⟨parts, _, same⟩ := (except_map_ok _ _ _).mp run
  cases same
  intro source bytes member
  obtain ⟨chunk, inChunks, inPage⟩ := List.mem_flatMap.mp member
  cases chunk with
  | text literal => cases List.mem_singleton.mp inPage
  | value key value =>
      obtain ⟨entry, stored, same⟩ := context_value_stored _ key value inv (fill_value _ parts key value inChunks)
      obtain ⟨pair, inPairs, set⟩ := new_filled_values filename template pairs filled entry stored
      have cut := shows_cstr ok pair.2 clean (shows pair inPairs)
      rw [← set, same] at cut
      exact cut source bytes inPage

-- The parts of a page are fixed before its holes are filled: a value never
-- reaches the tokenizer, in the file itself or in the ones it includes.
theorem values_stay_in_holes (files : List UInt8 → Option (List UInt8)) (depth : Nat) (filename : List UInt8)
    (context : HashMap Page) (reachable : Reachable context) :
    templateRender files depth ⟨filename, context⟩ =
        (templateParts files (statusOf (contextValue context)) depth filename).map (fill (contextValue context)) ∧
      ∀ parts, templateParts files (statusOf (contextValue context)) depth filename = .ok parts →
        ∀ other, Reachable other →
          (∀ key ∈ testedKeys parts, statusOf (contextValue context) key = statusOf (contextValue other) key) →
            templateRender files depth ⟨filename, other⟩ = .ok (fill (contextValue other) parts) := by
  have found := context_value_found context (reachable_rep_inv context reachable)
  refine ⟨template_render_fill context _ found files depth filename, ?_⟩
  intro parts run other otherReachable agree
  rw [template_render_fill other _ (context_value_found other (reachable_rep_inv other otherReachable)),
    template_parts_agree files _ _ depth filename parts run agree]
  rfl

-- A name that is itself a directive, against a plain one.
theorem values_stay_in_holes_directive :
    let files := fun name => if name = ascii "a" then some (ascii "Hi \x7b\x7bname\x7d\x7d, \x7b%when active b c%\x7d!\n")
      else none
    let parts := [Part.text (ascii "Hi "), .hole (ascii "name"), .text (ascii ", "), .tested (ascii "active"),
      .text []]
    ∃ context other : HashMap Page,
      hashMapInsertMove hashMapNew ⟨1, ascii "name", literal "\x7b%include a%\x7d"⟩ = .ok (context, true) ∧
      hashMapInsertMove hashMapNew ⟨1, ascii "name", literal "Bob"⟩ = .ok (other, true) ∧
      templateRender files 1 ⟨ascii "a", context⟩ = .ok (fill (contextValue context) parts) ∧
      templateRender files 1 ⟨ascii "a", other⟩ = .ok (fill (contextValue other) parts) := by
  intro files parts
  obtain ⟨context, inserted, reachable, rep, _⟩ := one_pair_represents ⟨1, ascii "name", literal "\x7b%include a%\x7d"⟩
  obtain ⟨other, otherInserted, otherReachable, otherRep, _⟩ := one_pair_represents ⟨1, ascii "name", literal "Bob"⟩
  have values : contextValue context = FinMap.empty.put (ascii "name") (literal "\x7b%include a%\x7d") :=
    funext fun key => by rw [contextValue, represents_get context _ key rep]
  have otherValues : contextValue other = FinMap.empty.put (ascii "name") (literal "Bob") :=
    funext fun key => by rw [contextValue, represents_get other _ key otherRep]
  have made : templateParts files (statusOf (contextValue context)) 1 (ascii "a") = .ok parts := by
    rw [values]
    decide +kernel
  have agree : ∀ key ∈ testedKeys parts, statusOf (contextValue context) key = statusOf (contextValue other) key := by
    rw [values, otherValues]
    decide +kernel
  have result := values_stay_in_holes files 1 (ascii "a") context reachable
  refine ⟨context, other, inserted, otherInserted, ?_, result.2 parts made other otherReachable agree⟩
  rw [result.1, made]
  rfl

end Facebooc
