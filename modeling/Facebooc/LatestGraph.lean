import Facebooc.Posts

set_option autoImplicit false

namespace Facebooc

open CMemory Ranking LeftJoin

def candidatePosts (db : Database) (me : Int) : List PostRow :=
  db.posts.filter fun post => post.author = me ∨
    db.connections.any fun row => row.account1 = me ∧ row.account2 = post.author

def LatestPosts (db : Database) (me : Int) (posts : List Post) : Prop :=
  (posts.map Post.id).Nodup ∧
    ∃ rows, TopK PostRow.createdAt 10 (candidatePosts db me) rows ∧ posts = rows.map postOfRow

-- The connection rows that reach a post through the join and the condition:
-- for my own posts those of any follower, for another's my own.
def reaching (db : Database) (me : Int) (post : PostRow) : List ConnectionRow :=
  if post.author = me then db.connections.filter fun row => row.account2 = me
  else db.connections.filter fun row => row.account1 = me ∧ row.account2 = post.author

theorem graph_hits (db : Database) (me : Int) (post : PostRow) :
    hits graphOn (graphWhere me) db.connections post =
      if post.author = me then max 1 (reaching db me post).length else (reaching db me post).length := by
  by_cases mine : post.author = me
  · have everything : ∀ row, graphWhere me post row = true := fun row => by simp [graphWhere, mine]
    rw [if_pos mine, reaching, if_pos mine, hits]
    simp only [everything, Bool.and_true, if_true]
    by_cases matched : db.connections.any (graphOn post) = true
    · rw [if_pos matched]
      have same : db.connections.filter (fun row => graphOn post row) = db.connections.filter fun row => row.account2 = me := by
        refine List.filter_congr fun row _ => ?_
        simp [graphOn, mine, eq_comm]
      obtain ⟨row, member, on⟩ := List.any_eq_true.mp matched
      have positive : 0 < (db.connections.filter fun row => graphOn post row).length :=
        List.length_pos_of_mem (List.mem_filter.mpr ⟨member, on⟩)
      rw [same] at positive ⊢
      omega
    · rw [if_neg matched]
      have nothing : (db.connections.filter fun row => row.account2 = me) = [] := by
        refine List.filter_eq_nil_iff.mpr fun row member reaches => matched ?_
        exact List.any_eq_true.mpr ⟨row, member, by simpa [graphOn, mine, eq_comm] using reaches⟩
      rw [nothing]
      rfl
  · have nobody : graphWhere me post none = false := by simp [graphWhere, mine]
    rw [if_neg mine, reaching, if_neg mine, hits, nobody]
    have same : db.connections.filter (fun row => graphOn post row && graphWhere me post (some row)) =
        db.connections.filter fun row => row.account1 = me ∧ row.account2 = post.author := by
      refine List.filter_congr fun row _ => ?_
      simp [graphOn, graphWhere, mine, eq_comm, Bool.and_comm]
    by_cases matched : db.connections.any (graphOn post) = true
    · rw [if_pos matched, same]
    · rw [if_neg matched]
      have nothing : (db.connections.filter fun row => row.account1 = me ∧ row.account2 = post.author) = [] := by
        refine List.filter_eq_nil_iff.mpr fun row member reaches => matched ?_
        exact List.any_eq_true.mpr ⟨row, member, by simpa [graphOn] using (of_decide_eq_true reaches).2.symm⟩
      rw [nothing]
      rfl

theorem mem_graph_rows (db : Database) (me : Int) (post : PostRow) :
    post ∈ graphRows db me ↔ post ∈ candidatePosts db me := by
  rw [graphRows, mem_select, graph_hits, candidatePosts, List.mem_filter, and_congr_right_iff]
  intro _
  by_cases mine : post.author = me
  · rw [if_pos mine]
    simp only [mine, true_or, decide_true, iff_true]
    omega
  · rw [if_neg mine, reaching, if_neg mine, List.length_pos_iff, ne_eq, List.filter_eq_nil_iff]
    simp [mine]

theorem graph_repeats (db : Database) (me : Int) (post : PostRow) (distinct : db.posts.Nodup) :
    2 ≤ (graphRows db me).count post ↔ post ∈ candidatePosts db me ∧ 2 ≤ (reaching db me post).length := by
  have hitCount := graph_hits db me post
  rw [graphRows, count_select]
  by_cases member : post ∈ db.posts
  · rw [List.count_eq_one_of_mem distinct member, Nat.one_mul]
    constructor
    · intro twice
      refine ⟨(mem_graph_rows db me post).mp ((mem_select _ _ _ _ _).mpr ⟨member, by omega⟩), ?_⟩
      rw [hitCount] at twice
      split at twice <;> omega
    · rintro ⟨_, twice⟩
      rw [hitCount]
      split <;> omega
  · rw [List.count_eq_zero.mpr member]
    refine iff_of_false (by omega) ?_
    rintro ⟨candidate, _⟩
    exact member (List.mem_of_mem_filter candidate)

theorem map_eq_on {α β : Type} (f : α → β) (left right : List α) (inj : ∀ a ∈ left, ∀ b ∈ right, f a = f b → a = b)
    (same : left.map f = right.map f) : left = right := by
  induction left generalizing right with
  | nil => exact (List.map_eq_nil_iff.mp same.symm).symm
  | cons a left ih =>
      cases right with
      | nil => cases same
      | cons b right =>
          rw [List.map_cons, List.map_cons, List.cons_eq_cons] at same
          rw [inj a List.mem_cons_self b List.mem_cons_self same.1,
            ih right (fun x inLeft y inRight => inj x (List.mem_cons_of_mem a inLeft) y (List.mem_cons_of_mem b inRight)) same.2]

theorem graph_first_page (db : Database) (me : Int) (posts : List Post) (account : me ≠ -1) :
    PostGetLatestGraph db me 0 (some posts) ↔
      ∃ out, TopK PostRow.createdAt 10 (graphRows db me) out ∧ posts = out.map postOfRow := by
  rw [PostGetLatestGraph, if_neg account]
  constructor
  · rintro ⟨list, same, order, ranked, page⟩
    cases same
    exact ⟨order.take 10, ⟨order, ranked, rfl⟩, page⟩
  · rintro ⟨out, ⟨order, ranked, rfl⟩, rfl⟩
    exact ⟨_, rfl, order, ranked, rfl⟩

theorem top_posts (db : Database) (rows out : List PostRow) (n : Nat) (inPosts : ∀ row ∈ rows, row ∈ db.posts)
    (top : TopK PostRow.createdAt n rows out) : ∀ row ∈ out, row ∈ db.posts := by
  obtain ⟨order, ranked, rfl⟩ := top
  exact fun row member => inPosts row (ranked.perm.mem_iff.mp (List.mem_of_mem_take member))

-- The list is right for every account of the tie order exactly when each post
-- that several connection rows reach has nine newer candidates.
theorem latest_graph_iff (db : Database) (me : Int) (account : me ≠ -1) (ids : (db.posts.map PostRow.id).Nodup) :
    (∀ posts, PostGetLatestGraph db me 0 (some posts) → LatestPosts db me posts) ↔
      ∀ post ∈ candidatePosts db me, 2 ≤ (reaching db me post).length →
        9 ≤ (newer PostRow.createdAt (candidatePosts db me) post).length := by
  have distinct : db.posts.Nodup := List.Nodup.of_map _ ids
  have idOf : ∀ a ∈ db.posts, ∀ b ∈ db.posts, a.id = b.id → a = b := fun a inA b inB same =>
    List.inj_on_of_nodup_map ids inA inB same
  have candidateRow : ∀ row ∈ candidatePosts db me, row ∈ db.posts := fun row member => List.mem_of_mem_filter member
  have graphRow : ∀ row ∈ graphRows db me, row ∈ db.posts := fun row member =>
    candidateRow row ((mem_graph_rows db me row).mp member)
  have ranking := top_iff_late PostRow.createdAt 10 (graphRows db me) (candidatePosts db me) (mem_graph_rows db me)
    (distinct.filter _)
  have late : (∀ post, 2 ≤ (graphRows db me).count post →
      10 ≤ (newer PostRow.createdAt (candidatePosts db me) post).length + 1) ↔
      ∀ post ∈ candidatePosts db me, 2 ≤ (reaching db me post).length →
        9 ≤ (newer PostRow.createdAt (candidatePosts db me) post).length := by
    simp only [graph_repeats db me _ distinct, and_imp, Nat.reduceLeDiff]
  rw [← late, ← ranking]
  constructor
  · intro right out top
    obtain ⟨_, rows, rowsTop, same⟩ := right _ ((graph_first_page db me _ account).mpr ⟨out, top, rfl⟩)
    have equal : out = rows := by
      refine map_eq_on postOfRow out rows ?_ same
      intro a inOut b inRows equal
      exact idOf a (top_posts db _ out 10 graphRow top a inOut) b (top_posts db _ rows 10 candidateRow rowsTop b inRows)
        (congrArg Post.id equal)
    rw [equal]
    exact rowsTop
  · intro right posts listed
    obtain ⟨out, top, rfl⟩ := (graph_first_page db me posts account).mp listed
    have outTop := right out top
    refine ⟨?_, out, outTop, rfl⟩
    rw [List.map_map]
    have nodup := top_nodup PostRow.createdAt 10 _ out (distinct.filter _) outTop
    refine List.Nodup.map_on ?_ nodup
    intro a inA b inB same
    exact idOf a (top_posts db _ out 10 graphRow top a inA) b (top_posts db _ out 10 graphRow top b inB) same

def followedTwice : Database :=
  ⟨[], [], [⟨1, 0, 2, 1⟩, ⟨2, 0, 3, 1⟩], [⟨1, 5, 1, ascii "hi"⟩], []⟩

theorem latest_graph_followed : (∀ posts, PostGetLatestGraph followedTwice 1 0 (some posts) → LatestPosts followedTwice 1 posts) ↔
    ∀ post ∈ candidatePosts followedTwice 1, 2 ≤ (reaching followedTwice 1 post).length →
      9 ≤ (newer PostRow.createdAt (candidatePosts followedTwice 1) post).length :=
  latest_graph_iff followedTwice 1 (by decide) (by decide)

theorem latest_graph_twice : PostGetLatestGraph followedTwice 1 0
    (some [⟨1, 5, 1, ⟨ascii "hi", 2⟩⟩, ⟨1, 5, 1, ⟨ascii "hi", 2⟩⟩]) ∧
    ¬ LatestPosts followedTwice 1 [⟨1, 5, 1, ⟨ascii "hi", 2⟩⟩, ⟨1, 5, 1, ⟨ascii "hi", 2⟩⟩] := by
  refine ⟨?_, fun right => absurd right.1 (by decide)⟩
  have page : postGetLatestGraph followedTwice 1 0 = some [⟨1, 5, 1, ⟨ascii "hi", 2⟩⟩, ⟨1, 5, 1, ⟨ascii "hi", 2⟩⟩] := by
    decide +kernel
  rw [← page]
  exact post_get_latest_graph_allowed followedTwice 1 0

end Facebooc
