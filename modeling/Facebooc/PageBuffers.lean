import Facebooc.Pages

set_option autoImplicit false

namespace Facebooc

open CMemory

structure Sized (str : BasicString) : Prop where
  size : str.size = str.data.length
  clean : 0 ∉ str.data

-- What src/handler/signup.c lets through, and an id that is a positive int.
structure WithinLimits (acc : Account) : Prop where
  name : Sized acc.name
  email : Sized acc.email
  username : Sized acc.username
  nameLimit : acc.name.size ≤ 50
  emailLimit : acc.email.size ≤ 50
  usernameLimit : acc.username.size ≤ 50
  positive : 0 < acc.id
  small : acc.id < 2 ^ 31

def connectText (connected : Bool) (acc2 : Account) : List UInt8 :=
  if connected then ascii "You and " ++ acc2.name.data ++ ascii " are connected!"
  else ascii "You and " ++ acc2.name.data ++ ascii " are not connected. <a href=\"/connect/" ++ decimal acc2.id ++
    ascii "/\">Click here</a> to connect!"

def searchText (a : Account) : List UInt8 :=
  ascii "<li><a href=\"/profile/" ++ decimal a.id ++ ascii "/\">" ++ a.name.data ++ ascii "</a> (<span>" ++ a.email.data ++
    ascii "</span>)</li>\n"

def profileEntryText (body : BasicString) : List UInt8 :=
  ascii "<li class=\"post-item\"><div class=\"post-author\">" ++ body.data ++ ascii "</div>"

def dashboardEntryText (authorName body : BasicString) : List UInt8 :=
  ascii "<li class=\"post-item\"><div class=\"post-author\">" ++ authorName.data ++
    ascii "</div><div class=\"post-content\">" ++ body.data ++ ascii "</div>"

def likeText (id : Int) : List UInt8 := ascii "<a class=\"btn\" href=\"/like/" ++ decimal id ++ ascii "/\">Like</a> - "

def unlikeText (id : Int) : List UInt8 := ascii "<a class=\"btn\" href=\"/unlike/" ++ decimal id ++ ascii "/\">Liked</a> - "

-- The text fits its array, and the bound given to snprintf leaves it whole.
def Printed (run : Except Fault Page) (text : List UInt8) : Prop := ∃ out, run = .ok out ∧ pageBytes out = text

def PostTextsFit : Prop :=
  ∀ (authorName body : BasicString) (id : Int), Sized authorName → Sized body → 0 < id → id < 2 ^ 31 →
    Printed (profileEntry body) (profileEntryText body) ∧
    Printed (dashboardEntry authorName body) (dashboardEntryText authorName body) ∧
    Printed (likeButton id) (likeText id) ∧ Printed (unlikeButton id) (unlikeText id)

structure PageTextsFit (acc : Account) : Prop where
  connect : ∀ connected, Printed (profileConnect connected acc) (connectText connected acc)
  id : Printed (snprintf 11 10 [.markup (decimal acc.id)]) (decimal acc.id)
  search : ∀ ctx, Printed (searchResult ctx acc) (pageBytes ctx ++ searchText acc)
  posts : PostTextsFit

theorem snprintf_printed_iff (size n : Nat) (page : Page) (text : List UInt8) (bytes : pageBytes page = text) :
    Printed (snprintf size n page) text ↔ text.length < size ∧ text.length ≤ n - 1 := by
  rw [snprintf, Printed]
  simp only [page_take_bytes, bytes]
  constructor
  · intro printed
    obtain ⟨out, run, whole⟩ := printed
    split at run
    · rename_i fits
      cases run
      rw [page_take_bytes, bytes] at whole
      rw [whole] at fits
      have length := congrArg List.length whole
      rw [List.length_take] at length
      exact ⟨fits, by omega⟩
    · cases run
  · intro both
    have whole := List.take_of_length_le both.2
    rw [whole, if_pos both.1]
    exact ⟨_, rfl, by rw [page_take_bytes, bytes, whole]⟩

theorem shown_bytes (source : Source) (str : BasicString) (sized : Sized str) :
    pageBytes [shown source str.data] = str.data := by
  change cstr str.data ++ [] = _
  rw [List.append_nil, cstr_clean str.data sized.clean]

theorem literal_bytes (s : String) : pageBytes (literal s) = ascii s := List.append_nil _

theorem markup_bytes (bytes : List UInt8) : pageBytes [.markup bytes] = bytes := List.append_nil _

theorem digit_clean (c : Char) (digit : c.isDigit = true) : chr c ≠ 0 := by
  simp only [Char.isDigit, Bool.and_eq_true, decide_eq_true_eq] at digit
  have low : 48 ≤ c.toNat := digit.1
  have high : c.toNat ≤ 57 := digit.2
  intro zero
  have value := congrArg UInt8.toNat zero
  rw [chr, UInt8.toNat_ofNat'] at value
  change c.toNat % 2 ^ 8 = 0 at value
  omega

theorem decimal_positive (id : Int) (positive : 0 < id) (small : id < 2 ^ 31) :
    (decimal id).length ≤ 10 ∧ 0 ∉ decimal id := by
  have kept : id.bmod (2 ^ 32) = id := Int.bmod_eq_of_le (by omega) (by omega)
  rw [decimal, kept, if_neg (by omega)]
  constructor
  · rw [List.length_map]
    exact Nat.toDigits_length 10 _ 10 (by decide) (by omega)
  · intro zero
    obtain ⟨c, member, same⟩ := List.mem_map.mp zero
    exact digit_clean c (Nat.isDigit_of_mem_toDigits (by decide) (by decide) member) same

theorem profile_connect_iff (connected : Bool) (acc : Account) (sized : Sized acc.name) :
    Printed (profileConnect connected acc) (connectText connected acc) ↔
      (connectText connected acc).length < 128 ∧
        (connectText connected acc).length ≤ (if connected then 25 else 85) + acc.name.size := by
  cases connected with
  | true =>
      have bound : 26 + acc.name.size - 1 = 25 + acc.name.size := by omega
      rw [profileConnect, if_pos rfl, snprintf_printed_iff _ _ _ (connectText true acc), bound, if_pos rfl]
      simp only [page_bytes_append, literal_bytes, shown_bytes _ _ sized]
      rfl
  | false =>
      have bound : 76 + acc.name.size + 10 - 1 = 85 + acc.name.size := by omega
      rw [profileConnect, if_neg Bool.false_ne_true, snprintf_printed_iff _ _ _ (connectText false acc), bound,
        if_neg Bool.false_ne_true]
      simp only [page_bytes_append, literal_bytes, shown_bytes _ _ sized, markup_bytes]
      rfl

theorem connect_text_length (connected : Bool) (acc : Account) : (connectText connected acc).length =
    if connected then 23 + acc.name.data.length else 75 + acc.name.data.length + (decimal acc.id).length := by
  have front : (ascii "You and ").length = 8 := rfl
  cases connected with
  | true =>
      have back : (ascii " are connected!").length = 15 := rfl
      rw [connectText, if_pos rfl, if_pos rfl]
      simp only [List.length_append, front, back]
      omega
  | false =>
      have middle : (ascii " are not connected. <a href=\"/connect/").length = 38 := rfl
      have back : (ascii "/\">Click here</a> to connect!").length = 29 := rfl
      rw [connectText, if_neg Bool.false_ne_true, if_neg Bool.false_ne_true]
      simp only [List.length_append, front, middle, back]
      omega

theorem search_text_length (a : Account) :
    (searchText a).length = 51 + (decimal a.id).length + a.name.data.length + a.email.data.length := by
  have front : (ascii "<li><a href=\"/profile/").length = 22 := rfl
  have link : (ascii "/\">").length = 3 := rfl
  have middle : (ascii "</a> (<span>").length = 12 := rfl
  have back : (ascii "</span>)</li>\n").length = 14 := rfl
  simp only [searchText, List.length_append, front, link, middle, back]
  omega

theorem search_text_clean (acc : Account) (limits : WithinLimits acc) : 0 ∉ searchText acc := by
  have digits := (decimal_positive acc.id limits.positive limits.small).2
  have front : 0 ∉ ascii "<li><a href=\"/profile/" := by decide +kernel
  have link : 0 ∉ ascii "/\">" := by decide +kernel
  have middle : 0 ∉ ascii "</a> (<span>" := by decide +kernel
  have back : 0 ∉ ascii "</span>)</li>\n" := by decide +kernel
  simp only [searchText, List.mem_append, not_or]
  exact ⟨⟨⟨⟨⟨⟨front, digits⟩, link⟩, limits.name.clean⟩, middle⟩, limits.email.clean⟩, back⟩

theorem snprintf_taken (size n : Nat) (page out : Page) (run : snprintf size n page = .ok out) :
    pageBytes out = (pageBytes page).take (n - 1) := by
  rw [snprintf] at run
  split at run
  · cases run
    exact page_take_bytes (n - 1) page
  · cases run

-- sbuff is read as a C string, and no piece of the text ends one early.
theorem search_result_iff (ctx : Page) (acc : Account) (limits : WithinLimits acc) :
    Printed (searchResult ctx acc) (pageBytes ctx ++ searchText acc) ↔
      (searchText acc).length < 128 ∧ (searchText acc).length ≤ 61 + acc.name.size + acc.email.size := by
  have bytes : pageBytes (literal "<li><a href=\"/profile/" ++ [.markup (decimal acc.id)] ++ literal "/\">" ++
      [shown .name acc.name.data] ++ literal "</a> (<span>" ++ [shown .email acc.email.data] ++ literal "</span>)</li>\n") =
        searchText acc := by
    simp only [page_bytes_append, literal_bytes, shown_bytes _ _ limits.name, shown_bytes _ _ limits.email, markup_bytes]
    rfl
  have bound : 62 + acc.name.size + acc.email.size - 1 = 61 + acc.name.size + acc.email.size := by omega
  rw [← bound, ← snprintf_printed_iff 128 (62 + acc.name.size + acc.email.size) _ (searchText acc) bytes, searchResult]
  constructor
  · intro printed
    obtain ⟨out, run, whole⟩ := printed
    obtain ⟨sbuff, filled, same⟩ := (except_bind_ok _ _ _).mp run
    cases same
    refine ⟨sbuff, filled, ?_⟩
    have taken := snprintf_taken _ _ _ sbuff filled
    rw [bytes] at taken
    rw [basicStringAppendRaw, page_bytes_append, page_cstr_bytes] at whole
    have read := List.append_cancel_left whole
    have longer : (cstr (pageBytes sbuff)).length ≤ (pageBytes sbuff).length := (List.takeWhile_sublist _).length_le
    rw [read] at longer
    rw [taken] at longer ⊢
    rw [List.length_take] at longer
    exact List.take_of_length_le (by omega)
  · intro printed
    obtain ⟨sbuff, filled, whole⟩ := printed
    refine ⟨_, (except_bind_ok _ _ _).mpr ⟨sbuff, filled, rfl⟩, ?_⟩
    rw [basicStringAppendRaw, page_bytes_append, page_cstr_bytes, whole, cstr_clean _ (search_text_clean acc limits)]

-- The bounds for the entries and the buttons are exact for ten digits.
theorem post_texts_fit : PostTextsFit := by
  intro authorName body id author sized positive small
  have digits := (decimal_positive id positive small).1
  have opened : (ascii "<li class=\"post-item\"><div class=\"post-author\">").length = 47 := rfl
  have between : (ascii "</div><div class=\"post-content\">").length = 32 := rfl
  have closed : (ascii "</div>").length = 6 := rfl
  have likeFront : (ascii "<a class=\"btn\" href=\"/like/").length = 27 := rfl
  have likeBack : (ascii "/\">Like</a> - ").length = 14 := rfl
  have unlikeFront : (ascii "<a class=\"btn\" href=\"/unlike/").length = 29 := rfl
  have unlikeBack : (ascii "/\">Liked</a> - ").length = 15 := rfl
  have bodySize := sized.size
  have nameSize := author.size
  refine ⟨?_, ?_, ?_, ?_⟩
  · rw [profileEntry, snprintf_printed_iff _ _ _ (profileEntryText body)
      (by simp only [page_bytes_append, literal_bytes, shown_bytes _ _ sized]; rfl)]
    simp only [profileEntryText, List.length_append, opened, closed]
    omega
  · rw [dashboardEntry, snprintf_printed_iff _ _ _ (dashboardEntryText authorName body)
      (by simp only [page_bytes_append, literal_bytes, shown_bytes _ _ sized, shown_bytes _ _ author]; rfl)]
    simp only [dashboardEntryText, List.length_append, opened, between, closed]
    omega
  · rw [likeButton, snprintf_printed_iff _ _ _ (likeText id)
      (by simp only [page_bytes_append, literal_bytes, markup_bytes]; rfl)]
    simp only [likeText, List.length_append, likeFront, likeBack]
    omega
  · rw [unlikeButton, snprintf_printed_iff _ _ _ (unlikeText id)
      (by simp only [page_bytes_append, literal_bytes, markup_bytes]; rfl)]
    simp only [unlikeText, List.length_append, unlikeFront, unlikeBack]
    omega

-- Two of the three arrays are too short for the longest texts, and the bound of
-- the third is one short.
theorem page_texts_fit_iff (acc : Account) (limits : WithinLimits acc) :
    PageTextsFit acc ↔ (decimal acc.id).length ≤ 9 ∧ acc.name.size + (decimal acc.id).length ≤ 52 ∧
      acc.name.size + acc.email.size + (decimal acc.id).length ≤ 76 := by
  have digits := (decimal_positive acc.id limits.positive limits.small).1
  have nameSize := limits.name.size
  have emailSize := limits.email.size
  have nameLimit := limits.nameLimit
  have connects := fun connected : Bool => profile_connect_iff connected acc limits.name
  have searches := fun ctx : Page => search_result_iff ctx acc limits
  have id := snprintf_printed_iff 11 10 [.markup (decimal acc.id)] (decimal acc.id) (markup_bytes _)
  have searchLength := search_text_length acc
  have apartLength := connect_text_length false acc
  have togetherLength := connect_text_length true acc
  simp only [Bool.false_eq_true, if_false, if_true] at apartLength togetherLength
  constructor
  · intro fit
    have apart := (connects false).mp (fit.connect false)
    have printedId := id.mp fit.id
    have found := (searches []).mp (fit.search [])
    omega
  · intro bounds
    refine ⟨?_, id.mpr (by omega), fun ctx => (searches ctx).mpr (by omega), post_texts_fit⟩
    intro connected
    rw [connects connected]
    cases connected with
    | true =>
        rw [togetherLength, if_pos rfl]
        omega
    | false =>
        rw [apartLength, if_neg Bool.false_ne_true]
        omega

def longAccount (id : Int) : Account :=
  ⟨id, 0, ⟨List.replicate 50 (chr 'n'), 50⟩, ⟨List.replicate 50 (chr '@'), 50⟩, ⟨List.replicate 50 (chr 'u'), 50⟩⟩

theorem long_account_limits (id : Int) (positive : 0 < id) (small : id < 2 ^ 31) : WithinLimits (longAccount id) where
  name := ⟨rfl, fun zero => absurd (List.eq_of_mem_replicate zero) (by decide)⟩
  email := ⟨rfl, fun zero => absurd (List.eq_of_mem_replicate zero) (by decide)⟩
  username := ⟨rfl, fun zero => absurd (List.eq_of_mem_replicate zero) (by decide)⟩
  nameLimit := Nat.le_refl 50
  emailLimit := Nat.le_refl 50
  usernameLimit := Nat.le_refl 50
  positive := positive
  small := small

theorem page_texts_fit_long : PageTextsFit (longAccount 100) ↔ (decimal 100).length ≤ 9 ∧ 50 + (decimal 100).length ≤ 52 ∧
    50 + 50 + (decimal 100).length ≤ 76 :=
  page_texts_fit_iff (longAccount 100) (long_account_limits 100 (by decide) (by decide))

theorem page_texts_fit_fails : ¬ ∀ acc : Account, WithinLimits acc → PageTextsFit acc := by
  intro all
  have fit := all (longAccount 1) (long_account_limits 1 (by decide) (by decide))
  have found := (search_result_iff [] (longAccount 1) (long_account_limits 1 (by decide) (by decide))).mp (fit.search [])
  rw [search_text_length] at found
  have digits : (decimal (longAccount 1).id).length = 1 := by decide
  have name : (longAccount 1).name.data.length = 50 := rfl
  have email : (longAccount 1).email.data.length = 50 := rfl
  omega

end Facebooc
