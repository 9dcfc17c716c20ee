import Mathlib.Data.List.Induction

set_option autoImplicit false

namespace FileTree

variable {Name Content : Type}

inductive Node (Content : Type) where
  | directory
  | file (content : Content)
deriving DecidableEq, Repr

-- A tree without links: an object is named by the entries that lead to it from
-- the root, and only directories have entries.
structure Tree (Name Content : Type) where
  node : List Name → Option (Node Content)
  root : node [] = some .directory
  closed : ∀ path name, node (path ++ [name]) ≠ none → node path = some .directory

inductive Component (Name : Type) where
  | here
  | up
  | down (name : Name)
deriving DecidableEq, Repr

def step (tree : Tree Name Content) (path : List Name) (component : Component Name) : Option (List Name) :=
  match tree.node path with
  | some .directory =>
      match component with
      | .here => some path
      | .up => some path.dropLast
      | .down name => if (tree.node (path ++ [name])).isSome then some (path ++ [name]) else none
  | _ => none

def walk (tree : Tree Name Content) (path : List Name) (components : List (Component Name)) : Option (List Name) :=
  components.foldlM (step tree) path

theorem step_directory (tree : Tree Name Content) (path next : List Name) (component : Component Name)
    (stepped : step tree path component = some next) : tree.node path = some .directory := by
  unfold step at stepped
  split at stepped
  · assumption
  · cases stepped

theorem step_down (tree : Tree Name Content) (path next : List Name) (component : Component Name)
    (forward : component ≠ .up) (stepped : step tree path component = some next) :
    next = path ∨ ∃ name, next = path ++ [name] := by
  have directory := step_directory tree path next component stepped
  simp only [step, directory] at stepped
  cases component with
  | here => exact .inl (Option.some.inj stepped).symm
  | up => exact absurd rfl forward
  | down name =>
      simp only at stepped
      split at stepped
      · exact .inr ⟨name, (Option.some.inj stepped).symm⟩
      · cases stepped

theorem parent_directory (tree : Tree Name Content) (path : List Name) (directory : tree.node path = some .directory) :
    tree.node path.dropLast = some .directory := by
  induction path using List.reverseRecOn with
  | nil => exact tree.root
  | append_singleton path name =>
      rw [List.dropLast_concat]
      apply tree.closed path name
      rw [directory]
      simp

theorem step_up (tree : Tree Name Content) (path next : List Name) (stepped : step tree path .up = some next) :
    tree.node next = some .directory := by
  have directory := step_directory tree path next .up stepped
  simp only [step, directory, Option.some.injEq] at stepped
  rw [← stepped]
  exact parent_directory tree path directory

theorem walk_down (tree : Tree Name Content) (components : List (Component Name)) (path last : List Name)
    (forward : ∀ component ∈ components, component ≠ .up) (walked : walk tree path components = some last) :
    path <+: last := by
  induction components generalizing path with
  | nil =>
      obtain rfl : path = last := Option.some.inj walked
      exact List.prefix_refl path
  | cons component rest ih =>
      rw [walk, List.foldlM_cons, Option.bind_eq_bind, Option.bind_eq_some_iff] at walked
      obtain ⟨next, stepped, walked⟩ := walked
      have further := ih next (fun c member => forward c (List.mem_cons_of_mem _ member)) walked
      rcases step_down tree path next component (forward _ List.mem_cons_self) stepped with same | ⟨name, moved⟩
      · rwa [same] at further
      · rw [moved] at further
        exact (List.prefix_append path [name]).trans further

-- A walk that goes up at most with its last component, and ends at a file, has
-- gone down.
theorem walk_contained (tree : Tree Name Content) (components : List (Component Name)) (last : Component Name)
    (path target : List Name) (forward : ∀ component ∈ components, component ≠ .up)
    (walked : walk tree path (components ++ [last]) = some target) (file : tree.node target ≠ some .directory) :
    ∃ below, below ≠ [] ∧ target = path ++ below := by
  rw [walk, List.foldlM_append, Option.bind_eq_bind, Option.bind_eq_some_iff] at walked
  obtain ⟨next, walked, stepped⟩ := walked
  rw [List.foldlM_cons, Option.bind_eq_bind, Option.bind_eq_some_iff] at stepped
  obtain ⟨found, stepped, done⟩ := stepped
  cases done
  obtain ⟨between, reached⟩ := walk_down tree components path next forward walked
  have directory := step_directory tree next target last stepped
  by_cases upward : last = .up
  · subst upward
    exact absurd (step_up tree next target stepped) file
  · rcases step_down tree next target last upward stepped with same | ⟨name, moved⟩
    · rw [same] at file
      exact absurd directory file
    · exact ⟨between ++ [name], by simp, by rw [moved, ← reached, List.append_assoc]⟩

end FileTree
