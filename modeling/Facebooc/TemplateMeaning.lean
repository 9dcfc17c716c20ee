import Mathlib.Logic.Relation
import Facebooc.TemplateTokens

set_option autoImplicit false

namespace Facebooc

open CMemory

def fileText (file : List Piece) : List UInt8 := file.flatMap Piece.text

-- Template files, none of which includes itself, however indirectly.
structure Templates where
  pieces : List UInt8 → Option (List Piece)
  rank : List UInt8 → Nat
  wellFormed : ∀ name file, pieces name = some file → ∀ piece ∈ file, piece.WellFormed
  acyclic : ∀ name file path, pieces name = some file → .nestedInclude path ∈ file → rank path < rank name

def Templates.files (templates : Templates) (name : List UInt8) : Option (List UInt8) :=
  (templates.pieces name).map fileText

def Templates.Includes (templates : Templates) (name path : List UInt8) : Prop :=
  ∃ file, templates.pieces name = some file ∧ .nestedInclude path ∈ file

theorem includes_rank (templates : Templates) (name path : List UInt8)
    (below : Relation.TransGen templates.Includes name path) : templates.rank path < templates.rank name := by
  induction below with
  | single included =>
      obtain ⟨file, found, member⟩ := included
      exact templates.acyclic name file _ found member
  | tail _ included ih =>
      obtain ⟨file, found, member⟩ := included
      exact Nat.lt_trans (templates.acyclic _ file _ found member) ih

-- What a template stands for, without a tokenizer.
def pieceMeaning (nested : List UInt8 → List UInt8) (values : Values) : Piece → List UInt8
  | .literal text => text
  | .placeholder key => (statusOf values key).getD []
  | .nestedInclude path => nested path
  | .statusSwitcher key value text => if statusOf values key = some value then text else []

def meaning (templates : Templates) (values : Values) (name : List UInt8) : List UInt8 :=
  match _found : templates.pieces name with
  | none => []
  | some file => file.attach.flatMap fun piece =>
      match _same : piece.val with
      | .nestedInclude path => meaning templates values path
      | other => pieceMeaning (fun _ => []) values other
termination_by templates.rank name
decreasing_by exact templates.acyclic name file path _found (_same ▸ piece.property)

theorem meaning_missing (templates : Templates) (values : Values) (name : List UInt8)
    (missing : templates.pieces name = none) : meaning templates values name = [] := by
  rw [meaning]
  split
  · rfl
  · rename_i found
    cases missing.symm.trans found

theorem meaning_file (templates : Templates) (values : Values) (name : List UInt8) (file : List Piece)
    (found : templates.pieces name = some file) :
    meaning templates values name = file.flatMap (pieceMeaning (meaning templates values) values) := by
  rw [meaning]
  split
  · rename_i missing
    cases missing.symm.trans found
  · rename_i other here
    cases here.symm.trans found
    have pointwise : ∀ (piece : Piece) (member : piece ∈ file),
        (match _same : (⟨piece, member⟩ : { piece // piece ∈ file }).val with
          | .nestedInclude path => meaning templates values path
          | other => pieceMeaning (fun _ => []) values other) = pieceMeaning (meaning templates values) values piece := by
      intro piece member
      cases piece <;> rfl
    rw [List.flatMap_subtype pointwise, List.unattach_attach]

def RendersMeaning (templates : Templates) (context : HashMap Page) (filename : List UInt8) (depth : Nat) : Prop :=
  (templateRender templates.files depth ⟨filename, context⟩).map pageBytes =
    .ok (meaning templates (contextValue context) filename)

-- Nothing stands behind a directive, and the byte that is not read is a brace.
def NothingLost : List Kind → Prop
  | [] => False
  | [kind] => kind ≠ .literal
  | kind :: rest => (kind = .literal ∨ kind = .placeholder) ∧ NothingLost rest

theorem file_text_clean (file : List Piece) (wellFormed : ∀ piece ∈ file, piece.WellFormed) : 0 ∉ fileText file := by
  intro member
  obtain ⟨piece, inFile, inText⟩ := List.mem_flatMap.mp member
  exact piece_text_clean piece (wellFormed piece inFile) inText

theorem file_text_nonempty (piece : Piece) (rest : List Piece) (wellFormed : piece.WellFormed) :
    fileText (piece :: rest) ≠ [] := by
  rw [fileText, List.flatMap_cons]
  exact List.append_ne_nil_of_left_ne_nil (piece_text_nonempty piece wellFormed) _

theorem drop_last_behind (piece next : Piece) (rest : List Piece) (wellFormed : next.WellFormed) :
    (fileText (piece :: next :: rest)).dropLast = piece.text ++ (fileText (next :: rest)).dropLast := by
  rw [fileText, List.flatMap_cons, List.dropLast_append_of_ne_nil]
  · rfl
  · exact file_text_nonempty next rest wellFormed

theorem file_drop_last (piece : Piece) (rest : List Piece) :
    ∃ more, (fileText (piece :: rest)).dropLast = piece.text.dropLast ++ more := by
  rw [fileText, List.flatMap_cons]
  by_cases last : rest.flatMap Piece.text = []
  · exact ⟨[], by rw [last, List.append_nil, List.append_nil]⟩
  · rw [List.dropLast_append_of_ne_nil last]
    rcases List.eq_nil_or_concat piece.text with none | ⟨init, c, split⟩
    · exact ⟨_, by rw [none]; rfl⟩
    · rw [split, List.concat_eq_append, List.dropLast_concat, List.append_assoc]
      exact ⟨_, rfl⟩

def chunkBytes (chunks : List Chunk) : List UInt8 := pageBytes (chunks.flatMap Chunk.page)

theorem chunk_bytes_append (chunks more : List Chunk) : chunkBytes (chunks ++ more) = chunkBytes chunks ++ chunkBytes more := by
  rw [chunkBytes, List.flatMap_append, pageBytes, List.flatMap_append]
  rfl

theorem chunk_bytes_text (text : List UInt8) (chunks : List Chunk) :
    chunkBytes (.text text :: chunks) = text ++ chunkBytes chunks := by
  rw [← List.singleton_append, chunk_bytes_append]
  simp [chunkBytes, Chunk.page, pageBytes, Fragment.bytes]

theorem not_mem_joined (a c : UInt8) (pre text : List UInt8) (front : a ∉ c :: pre) (back : a ∉ text) :
    a ∉ c :: (pre ++ text) := by
  rw [← List.cons_append, List.mem_append, not_or]
  exact ⟨front, back⟩

section Meaning

variable (nested : List UInt8 → Except Fault (List Chunk)) (nestedMeaning : List UInt8 → List UInt8)
  (context : HashMap Page) (values : Values) (found : ∀ key, hashMapGet context key = .ok (values key))

theorem piece_chunks_meaning (piece : Piece)
    (inner : ∀ path, piece = .nestedInclude path → (nested path).map chunkBytes = .ok (nestedMeaning path)) :
    (pieceChunks nested values piece).map chunkBytes = .ok (pieceMeaning nestedMeaning values piece) := by
  cases piece with
  | literal text => simp [pieceChunks, pieceMeaning, Except.map, chunkBytes, Chunk.page, pageBytes, Fragment.bytes]
  | placeholder key =>
      cases held : values key with
      | none => simp [pieceChunks, pieceMeaning, Except.map, chunkBytes, fillChunks, Part.fill, statusOf, held, pageBytes]
      | some page => simp [pieceChunks, pieceMeaning, Except.map, chunkBytes, fillChunks, Part.fill, statusOf, held, Chunk.page]
  | nestedInclude path => exact inner path rfl
  | statusSwitcher key value text =>
      rw [pieceChunks, pieceMeaning]
      split <;> simp [Except.map, chunkBytes, Chunk.page, pageBytes, Fragment.bytes]

include found

theorem last_meaning (rounds : Nat) (front pre junk : List UInt8) (c : UInt8) (piece : Piece)
    (clean : 0 ∉ c :: pre) (unopened : chr '{' ∉ c :: pre) (wellFormed : piece.WellFormed)
    (braced : piece.kind ≠ .literal)
    (meant : (pieceChunks nested values piece).map chunkBytes = .ok (pieceMeaning nestedMeaning values piece)) :
    (restChunks nested context (rounds + 1) (front ++ (c :: pre ++ piece.text.dropLast ++ 0 :: junk)) front.length).map
        chunkBytes = .ok (pre ++ pieceMeaning nestedMeaning values piece) := by
  obtain ⟨chunks, made, bytes⟩ := (except_map_ok _ _ _).mp meant
  rw [text_drop_last piece braced]
  rcases piece_behind piece with none | brace
  · have ran := piece_last nested context values found rounds front pre junk c piece clean unopened wellFormed braced
    simp only [none, List.append_nil, List.append_assoc, List.cons_append] at ran ⊢
    rw [ran, made]
    simp only [Except.map, chunk_bytes_text, bytes]
  · obtain ⟨left, ran⟩ := piece_cut nested context values found rounds front pre [] junk c piece clean unopened wellFormed
      braced List.not_mem_nil
    have ended := strtok_none left junk (chr '{')
    simp only [brace, List.append_assoc, List.cons_append, List.nil_append] at ran ⊢
    rw [ran, made]
    simp only [bind, Except.bind, restChunks, ended, Except.map, List.append_nil, chunk_bytes_text, bytes]

theorem rest_meaning (file : List Piece) (rounds : Nat) (front pre junk : List UInt8) (c : UInt8)
    (wellFormed : ∀ piece ∈ file, piece.WellFormed) (layout : NothingLost (file.map Piece.kind))
    (inner : ∀ path, .nestedInclude path ∈ file → (nested path).map chunkBytes = .ok (nestedMeaning path))
    (clean : 0 ∉ c :: pre) (unopened : chr '{' ∉ c :: pre) (enough : file.length < rounds) :
    (restChunks nested context rounds (front ++ (c :: pre ++ (fileText file).dropLast ++ 0 :: junk)) front.length).map
        chunkBytes = .ok (pre ++ file.flatMap (pieceMeaning nestedMeaning values)) := by
  induction file generalizing rounds front pre c with
  | nil => exact layout.elim
  | cons piece rest ih =>
      obtain ⟨rounds, rfl⟩ : ∃ fewer, rounds = fewer + 1 := ⟨rounds - 1, by omega⟩
      have here := wellFormed piece List.mem_cons_self
      have meant := piece_chunks_meaning nested nestedMeaning values piece fun path same => inner path (by simp [same])
      cases rest with
      | nil =>
          rw [fileText, List.flatMap_singleton, List.flatMap_singleton]
          exact last_meaning nested nestedMeaning context values found rounds front pre junk c piece clean unopened here
            layout meant
      | cons next rest =>
          obtain ⟨first, later⟩ := layout
          have others := fun other member => wellFormed other (List.mem_cons_of_mem _ member)
          have included := fun path member => inner path (List.mem_cons_of_mem _ member)
          have fewer : (next :: rest).length < rounds := by rw [List.length_cons] at enough; omega
          rw [drop_last_behind piece next rest (others next List.mem_cons_self), List.flatMap_cons]
          cases piece with
          | nestedInclude path => rcases first with same | same <;> cases same
          | statusSwitcher key value text => rcases first with same | same <;> cases same
          | literal text =>
              have ran := ih (rounds + 1) front (pre ++ text) c others later included
                (not_mem_joined _ c pre text clean here.2.1) (not_mem_joined _ c pre text unopened here.2.2.1) (by omega)
              simp only [Piece.text, pieceMeaning, List.append_assoc, List.cons_append] at ran ⊢
              exact ran
          | placeholder key =>
              obtain ⟨chunks, made, bytes⟩ := (except_map_ok _ _ _).mp meant
              obtain ⟨left, ran⟩ := braced_behind nested context values found rounds front pre _ junk c _ clean unopened
                here Kind.noConfusion fun member => file_text_clean _ others (List.dropLast_subset _ member)
              have again := ih rounds left [] (chr '}') others later included (by decide) (by decide) fewer
              obtain ⟨tail, tailRan, tailBytes⟩ := (except_map_ok _ _ _).mp again
              simp only [Piece.behind, List.append_assoc, List.cons_append, List.nil_append] at ran tailRan tailBytes ⊢
              rw [ran, made]
              simp only [bind, Except.bind, tailRan, Except.map, chunk_bytes_text, chunk_bytes_append, bytes, tailBytes]

end Meaning

theorem file_chunks (templates : Templates) (context : HashMap Page) (depth : Nat) (filename : List UInt8)
    (piece : Piece) (rest : List Piece) (found : templates.pieces filename = some (piece :: rest)) :
    templateChunks templates.files context (depth + 1) filename =
      restChunks (templateChunks templates.files context depth) context ((fileText (piece :: rest)).length + 2)
        ([] ++ (chr ' ' :: [] ++ (fileText (piece :: rest)).dropLast ++ 0 :: [])) ([] : List UInt8).length := by
  have wellFormed := templates.wellFormed filename _ found
  have file : templates.files filename = some (fileText (piece :: rest)) := by
    rw [Templates.files, found]
    rfl
  exact chunks_start _ _ depth filename _ file (file_text_nonempty piece rest (wellFormed piece List.mem_cons_self))
    (file_text_clean _ wellFormed)

theorem pieces_fit (file : List Piece) (wellFormed : ∀ piece ∈ file, piece.WellFormed) :
    file.length ≤ (fileText file).length := by
  induction file with
  | nil => exact Nat.zero_le _
  | cons piece rest ih =>
      have some_byte := List.length_pos_iff.mpr (piece_text_nonempty piece (wellFormed piece List.mem_cons_self))
      have others := ih fun other member => wellFormed other (List.mem_cons_of_mem _ member)
      rw [fileText, List.flatMap_cons, List.length_append, List.length_cons]
      rw [fileText] at others
      omega

theorem template_chunks_meaning (templates : Templates) (context : HashMap Page) (reachable : Reachable context)
    (depth : Nat) (filename : List UInt8) (enough : templates.rank filename < depth)
    (layout : ∀ path file, Relation.ReflTransGen templates.Includes filename path → templates.pieces path = some file →
      NothingLost (file.map Piece.kind)) :
    (templateChunks templates.files context depth filename).map chunkBytes =
      .ok (meaning templates (contextValue context) filename) := by
  induction depth generalizing filename with
  | zero => omega
  | succ depth ih =>
      cases found : templates.pieces filename with
      | none =>
          rw [meaning_missing templates _ filename found, templateChunks, readfile, Templates.files, found]
          rfl
      | some file =>
          have here := layout filename file .refl found
          have wellFormed := templates.wellFormed filename file found
          have included : ∀ path, .nestedInclude path ∈ file →
              (templateChunks templates.files context depth path).map chunkBytes =
                .ok (meaning templates (contextValue context) path) := by
            intro path member
            have lower := templates.acyclic filename file path found member
            exact ih path (by omega) fun other otherFile reached => layout other otherFile (.head ⟨file, found, member⟩ reached)
          cases file with
          | nil => exact here.elim
          | cons piece rest =>
              have fit := pieces_fit (piece :: rest) wellFormed
              rw [file_chunks templates context depth filename piece rest found, meaning_file templates _ filename _ found]
              have value := context_value_found context (reachable_rep_inv context reachable)
              exact rest_meaning _ _ context _ value _ _ [] [] [] (chr ' ') wellFormed here included (by decide) (by decide)
                (by omega)

theorem renders_chunks (templates : Templates) (context : HashMap Page) (filename : List UInt8) (depth : Nat) :
    RendersMeaning templates context filename depth ↔
      (templateChunks templates.files context depth filename).map chunkBytes =
        .ok (meaning templates (contextValue context) filename) := by
  rw [RendersMeaning, templateRender]
  cases templateChunks templates.files context depth filename <;> rfl

-- A file with a given layout that loses something if the layout can: its runs
-- are two bytes long and its other pieces stand for nothing.
def samplePiece : Kind → Piece
  | .literal => .literal (ascii "xy")
  | .placeholder => .placeholder (ascii "k")
  | .nestedInclude => .nestedInclude (ascii "g")
  | .statusSwitcher => .statusSwitcher (ascii "k") (ascii "v") (ascii "t")

def sampleMeaning (kind : Kind) : List UInt8 := if kind = .literal then ascii "xy" else []

theorem sample_kinds (layout : List Kind) : (layout.map samplePiece).map Piece.kind = layout := by
  rw [List.map_map, List.map_congr_left, List.map_id]
  intro kind _
  cases kind <;> rfl

theorem sample_well_formed (kind : Kind) : (samplePiece kind).WellFormed := by
  cases kind with
  | literal => exact ⟨by decide, by decide, by decide, by decide⟩
  | placeholder => exact ⟨by decide, by decide, by decide⟩
  | nestedInclude => exact ⟨by decide, by decide, by decide⟩
  | statusSwitcher =>
      exact ⟨⟨by decide, by decide, by decide⟩, ⟨by decide, by decide, by decide⟩, ⟨by decide, by decide, by decide⟩,
        by decide, by decide⟩

theorem samples_well_formed (layout : List Kind) : ∀ piece ∈ layout.map samplePiece, piece.WellFormed := by
  intro piece member
  obtain ⟨kind, _, rfl⟩ := List.mem_map.mp member
  exact sample_well_formed kind

theorem sample_meaning_head (layout : List Kind) (b : UInt8) (tail : List UInt8)
    (starts : layout.flatMap sampleMeaning = b :: tail) : b = chr 'x' := by
  induction layout with
  | nil => cases starts
  | cons kind rest ih =>
      cases kind with
      | literal => exact (List.head_eq_of_cons_eq starts).symm
      | _ => exact ih starts

section Lost

variable (nested : List UInt8 → Except Fault (List Chunk)) (context : HashMap Page)

theorem rest_head (rounds : Nat) (front text junk bytes : List UInt8) (a b : UInt8) (more : List UInt8)
    (starts : text = a :: b :: more) (clean : 0 ∉ text) (first : a ≠ chr '{') (second : b ≠ chr '{')
    (ran : (restChunks nested context rounds (front ++ (text ++ 0 :: junk)) front.length).map chunkBytes = .ok bytes) :
    ∃ tail, bytes = b :: tail := by
  obtain ⟨token, left, pos, taken, tokenClean, token_starts⟩ :=
    strtok_head front text junk (chr '{') clean a (b :: more) (by decide) starts first
  obtain ⟨tail, rfl⟩ := token_starts b more rfl second
  have read := cstr_at_append front (a :: b :: tail) left _ rfl tokenClean
  rw [restChunks, taken] at ran
  simp only [bind, Except.bind, read, List.tail_cons] at ran
  cases looped : templateLoop nested context rounds (front ++ (a :: b :: tail ++ 0 :: left)) pos with
  | error fault =>
      rw [looped] at ran
      cases ran
  | ok rest =>
      rw [looped] at ran
      simp only [Except.map, chunk_bytes_text, List.cons_append] at ran
      cases ran
      exact ⟨_, rfl⟩

theorem rest_skip (rounds : Nat) (front text junk : List UInt8) (clean : 0 ∉ text) :
    restChunks nested context rounds (front ++ (chr '{' :: text ++ 0 :: junk)) front.length =
      restChunks nested context rounds (front ++ [chr '{'] ++ (text ++ 0 :: junk)) (front ++ [chr '{']).length := by
  rw [restChunks, restChunks, strtok_skip front text junk (chr '{') clean (by decide)]

theorem skipped_head (rounds : Nat) (front text junk bytes : List UInt8) (a b : UInt8) (more : List UInt8)
    (starts : text = chr '{' :: a :: b :: more) (clean : 0 ∉ text) (first : a ≠ chr '{') (second : b ≠ chr '{')
    (ran : (restChunks nested context rounds (front ++ (text ++ 0 :: junk)) front.length).map chunkBytes = .ok bytes) :
    ∃ tail, bytes = b :: tail := by
  subst starts
  have behind := fun member => clean (List.mem_cons_of_mem _ member)
  rw [rest_skip nested context rounds front _ junk behind] at ran
  exact rest_head nested context rounds _ _ junk bytes a b more rfl behind first second ran

-- The braces of a directive are skipped as delimiters, so that it is copied
-- like a run without its first byte.
theorem directive_lost (rounds : Nat) (left junk : List UInt8) (kind : Kind) (rest : List Kind) :
    (restChunks nested context (rounds + 1)
        (left ++ ((fileText ((kind :: rest).map samplePiece)).dropLast ++ 0 :: junk)) left.length).map chunkBytes ≠
      .ok ((kind :: rest).flatMap sampleMeaning) := by
  intro ran
  have clean : 0 ∉ (fileText ((kind :: rest).map samplePiece)).dropLast := fun member =>
    file_text_clean _ (samples_well_formed (kind :: rest)) (List.dropLast_subset _ member)
  have starts : ∀ b tail, (kind :: rest).flatMap sampleMeaning = b :: tail → b = chr 'x' := sample_meaning_head _
  obtain ⟨more, split⟩ := file_drop_last (samplePiece kind) (rest.map samplePiece)
  rw [List.map_cons] at ran clean
  -- What is meant can only start with an x; what is printed starts otherwise.
  cases kind with
  | literal =>
      cases rest with
      | nil =>
          have ended := literal_last nested context rounds left [] junk (chr 'x') (by decide) (by decide)
          have shape : (fileText (samplePiece .literal :: [].map samplePiece)).dropLast = [chr 'x'] := rfl
          rw [shape, ended] at ran
          cases ran
      | cons next rest =>
          have behind := drop_last_behind (samplePiece .literal) (samplePiece next) (rest.map samplePiece)
            (sample_well_formed next)
          rw [List.map_cons] at ran clean
          rw [behind] at ran clean
          obtain ⟨tail, same⟩ := rest_head nested context _ _ _ junk _ _ _ _ rfl clean (by decide) (by decide) ran
          exact absurd (starts _ _ same) (by decide)
  | placeholder =>
      have shape : (samplePiece .placeholder).text.dropLast ++ more =
          chr '{' :: (chr '{' :: chr 'k' :: chr '}' :: more) := rfl
      rw [split, shape] at ran clean
      have behind := fun member => clean (List.mem_cons_of_mem _ member)
      rw [rest_skip nested context _ left _ junk behind] at ran
      obtain ⟨tail, same⟩ := skipped_head nested context _ _ _ junk _ _ _ _ rfl behind (by decide) (by decide) ran
      exact absurd (starts _ _ same) (by decide)
  | nestedInclude =>
      have shape : (samplePiece .nestedInclude).text.dropLast ++ more =
          chr '{' :: chr '%' :: chr 'i' :: (ascii "nclude g%" ++ more) := rfl
      rw [split] at ran clean
      obtain ⟨tail, same⟩ := skipped_head nested context _ _ _ junk _ _ _ _ shape clean (by decide) (by decide) ran
      exact absurd (starts _ _ same) (by decide)
  | statusSwitcher =>
      have shape : (samplePiece .statusSwitcher).text.dropLast ++ more =
          chr '{' :: chr '%' :: chr 'w' :: (ascii "hen k v t%" ++ more) := rfl
      rw [split] at ran clean
      obtain ⟨tail, same⟩ := skipped_head nested context _ _ _ junk _ _ _ _ shape clean (by decide) (by decide) ran
      exact absurd (starts _ _ same) (by decide)

theorem sample_chunks (missing : nested (ascii "g") = .ok []) (kind : Kind) (braced : kind ≠ .literal) :
    pieceChunks nested (fun _ => none) (samplePiece kind) = .ok [] := by
  cases kind with
  | literal => exact absurd rfl braced
  | placeholder => rfl
  | nestedInclude => exact missing
  | statusSwitcher => rfl

theorem behind_text (made : Except Fault (List Chunk)) (pre bytes : List UInt8)
    (same : (made.map fun rest => Chunk.text pre :: ([] ++ rest)).map chunkBytes = .ok (pre ++ bytes)) :
    made.map chunkBytes = .ok bytes := by
  cases made with
  | error fault => cases same
  | ok rest =>
      simp only [Except.map, List.nil_append, chunk_bytes_text, Except.ok.injEq, List.append_cancel_left_eq] at same ⊢
      exact same

theorem last_run_lost (rounds : Nat) (front pre junk : List UInt8) (c : UInt8) (clean : 0 ∉ c :: pre)
    (unopened : chr '{' ∉ c :: pre) :
    (restChunks nested context (rounds + 1)
        (front ++ (c :: pre ++ (fileText ([.literal].map samplePiece)).dropLast ++ 0 :: junk)) front.length).map chunkBytes ≠
      .ok (pre ++ [.literal].flatMap sampleMeaning) := by
  have shape : (fileText ([.literal].map samplePiece)).dropLast = [chr 'x'] := rfl
  have ended := literal_last nested context rounds front (pre ++ [chr 'x']) junk c
    (not_mem_joined _ c pre _ clean (by decide)) (not_mem_joined _ c pre _ unopened (by decide))
  rw [shape, List.cons_append, ended]
  simp only [Except.map, chunk_bytes_text, List.append_assoc, ne_eq, Except.ok.injEq, List.append_cancel_left_eq]
  decide

theorem layout_lost (missing : nested (ascii "g") = .ok []) (empty : ∀ key, hashMapGet context key = .ok none)
    (layout : List Kind) (bad : ¬ NothingLost layout) (some_piece : layout ≠ []) (rounds : Nat)
    (front pre junk : List UInt8) (c : UInt8) (clean : 0 ∉ c :: pre) (unopened : chr '{' ∉ c :: pre)
    (enough : layout.length < rounds) :
    (restChunks nested context rounds
        (front ++ (c :: pre ++ (fileText (layout.map samplePiece)).dropLast ++ 0 :: junk)) front.length).map chunkBytes ≠
      .ok (pre ++ layout.flatMap sampleMeaning) := by
  induction layout generalizing rounds front pre c with
  | nil => exact absurd rfl some_piece
  | cons kind rest ih =>
      obtain ⟨rounds, rfl⟩ : ∃ fewer, rounds = fewer + 2 := ⟨rounds - 2, by rw [List.length_cons] at enough; omega⟩
      rw [List.length_cons] at enough
      cases rest with
      | nil =>
          obtain rfl : kind = .literal := not_not.mp bad
          exact last_run_lost nested context (rounds + 1) front pre junk c clean unopened
      | cons next rest =>
          rw [List.map_cons, List.map_cons, drop_last_behind _ _ _ (sample_well_formed next)]
          by_cases braced : kind = .literal
          · subst braced
            have badRest : ¬ NothingLost (next :: rest) := fun good => bad ⟨.inl rfl, good⟩
            -- A run joins the text in front, and the loss is further on.
            have again := ih badRest (by simp) (rounds + 2) front (pre ++ ascii "xy") c
              (not_mem_joined _ c pre _ clean (by decide)) (not_mem_joined _ c pre _ unopened (by decide)) (by omega)
            rw [List.map_cons, List.cons_append, List.append_assoc, List.append_assoc] at again
            exact again
          · have kinds : (samplePiece kind).kind ≠ .literal := by
              cases kind with
              | literal => exact absurd rfl braced
              | _ => exact Kind.noConfusion
            obtain ⟨left, ran⟩ := braced_behind nested context (fun _ => none) empty (rounds + 1) front pre
              (fileText ((next :: rest).map samplePiece)).dropLast junk c _ clean unopened (sample_well_formed kind) kinds
              fun member => file_text_clean _ (samples_well_formed _) (List.dropLast_subset _ member)
            have nothing : sampleMeaning kind = [] := if_neg braced
            intro same
            rw [List.map_cons] at ran
            rw [ran, sample_chunks nested missing kind braced, List.flatMap_cons, nothing, List.nil_append] at same
            have tail := behind_text _ pre _ same
            -- Behind a placeholder a brace is left, behind a directive none.
            cases kind with
            | literal => exact braced rfl
            | placeholder =>
                have badRest : ¬ NothingLost (next :: rest) := fun good => bad ⟨.inr rfl, good⟩
                exact ih badRest (by simp) (rounds + 1) left [] (chr '}') (by decide) (by decide) (by omega) tail
            | nestedInclude => exact directive_lost nested context rounds left junk next rest tail
            | statusSwitcher => exact directive_lost nested context rounds left junk next rest tail

end Lost

def sampleTemplates (layout : List Kind) : Templates where
  pieces name := if name = ascii "f" then some (layout.map samplePiece) else none
  rank name := if name = ascii "f" then 1 else 0
  wellFormed := by
    intro name file found
    split at found
    · cases found
      exact samples_well_formed layout
    · cases found
  acyclic := by
    intro name file path found member
    split at found
    · cases found
      obtain ⟨kind, _, same⟩ := List.mem_map.mp member
      cases kind <;> cases same
      rw [if_neg (by decide), if_pos ‹_›]
      decide
    · cases found

theorem context_value_new (key : List UInt8) : contextValue (hashMapNew : HashMap Page) key = none := by
  rw [contextValue, represents_get _ _ key represents_new]
  rfl

theorem sample_reference (layout : List Kind) :
    meaning (sampleTemplates layout) (contextValue hashMapNew) (ascii "f") = layout.flatMap sampleMeaning := by
  have absent : meaning (sampleTemplates layout) (contextValue hashMapNew) (ascii "g") = [] :=
    meaning_missing _ _ _ rfl
  rw [meaning_file (sampleTemplates layout) _ (ascii "f") _ rfl, List.flatMap_map]
  refine List.flatMap_congr fun kind _ => ?_
  cases kind with
  | literal => rfl
  | placeholder => simp [samplePiece, pieceMeaning, statusOf, context_value_new, sampleMeaning]
  | nestedInclude => exact absent
  | statusSwitcher => simp [samplePiece, pieceMeaning, statusOf, context_value_new, sampleMeaning]

theorem sample_lost (layout : List Kind) (bad : ¬ NothingLost layout) :
    ¬ RendersMeaning (sampleTemplates layout) hashMapNew (ascii "f") 2 := by
  rw [renders_chunks, sample_reference]
  cases layout with
  | nil =>
      intro same
      cases same
  | cons kind rest =>
      have fit := pieces_fit _ (samples_well_formed (kind :: rest))
      rw [List.length_map, List.map_cons] at fit
      rw [file_chunks (sampleTemplates (kind :: rest)) hashMapNew 1 (ascii "f") (samplePiece kind) (rest.map samplePiece) rfl]
      exact layout_lost _ hashMapNew rfl (fun key => represents_get _ _ key represents_new) _ bad (by simp) _ [] [] []
        (chr ' ') (by decide) (by decide) (Nat.lt_of_le_of_lt fit (by omega))

-- A layout says which files are rendered as what they stand for: whatever the
-- runs, keys and values are, if it is good, and not for all of them otherwise.
theorem renders_meaning_iff (layout : List Kind) :
    (∀ (templates : Templates) (filename : List UInt8) (file : List Piece) (context : HashMap Page) (depth : Nat),
      templates.pieces filename = some file → file.map Piece.kind = layout →
      (∀ path other, Relation.TransGen templates.Includes filename path → templates.pieces path = some other →
        NothingLost (other.map Piece.kind)) →
      Reachable context → templates.rank filename < depth → RendersMeaning templates context filename depth) ↔
    NothingLost layout := by
  constructor
  · intro renders
    by_contra bad
    refine sample_lost layout bad (renders (sampleTemplates layout) (ascii "f") _ hashMapNew 2 rfl (sample_kinds layout)
      ?_ .new (Nat.lt_succ_self 1))
    intro path other below here
    change (if path = ascii "f" then some (layout.map samplePiece) else none) = some other at here
    split at here
    · rename_i same
      have lower := includes_rank (sampleTemplates layout) _ _ below
      rw [same] at lower
      exact absurd lower (Nat.lt_irrefl _)
    · cases here
  · intro good templates filename file context depth found kinds others reachable enough
    rw [renders_chunks]
    refine template_chunks_meaning templates context reachable depth filename enough ?_
    intro path other reached here
    rcases Relation.reflTransGen_iff_eq_or_transGen.mp reached with same | below
    · cases same
      cases here.symm.trans found
      exact kinds ▸ good
    · exact others path other below here

theorem renders_meaning_fails :
    let templates := sampleTemplates [.literal, .statusSwitcher, .literal]
    templates.files (ascii "f") = some (ascii "xy\x7b%when k v t%\x7dxy") ∧ Reachable (hashMapNew : HashMap Page) ∧
    templates.rank (ascii "f") < 2 ∧ meaning templates (contextValue hashMapNew) (ascii "f") = ascii "xyxy" ∧
    (templateRender templates.files 2 ⟨ascii "f", hashMapNew⟩).map pageBytes = .ok (ascii "xy") ∧
    ¬ RendersMeaning templates hashMapNew (ascii "f") 2 := by
  have lossy : ¬ NothingLost [.literal, .statusSwitcher, .literal] := by
    rintro ⟨_, same | same, _⟩ <;> cases same
  exact ⟨by decide, .new, by decide, sample_reference _, by decide +kernel, sample_lost _ lossy⟩

end Facebooc
