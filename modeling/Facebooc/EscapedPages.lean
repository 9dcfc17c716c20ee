import Facebooc.PageShows
import Facebooc.ServerSteps

set_option autoImplicit false

namespace Facebooc

open CMemory Runs

def Sent (arrivals : List Arrival) (source : Source) (text : List UInt8) : Prop :=
  ∃ arrival ∈ arrivals,
    match source with
    | .name => arrival.route = .signup ∧ text = (signupForm arrival.req).name.data
    | .email => arrival.route = .signup ∧ text = (signupForm arrival.req).email.data
    | .username => (arrival.route = .signup ∨ arrival.route = .login) ∧ text = (formField arrival.req "username").data
    | .body => arrival.route = .post ∧ text = (formField arrival.req "post").data
    | .query => arrival.route = .search ∧ text = (basicStringInit (queryGet arrival.req.queryString (ascii "q"))).data

-- A text in escaped form. The lines of a post are kept apart by <br>.
def displayed (source : Source) (text : List UInt8) : List UInt8 :=
  match source with
  | .body => (text.flatMap escapeChar).flatMap brChar
  | _ => text.flatMap escapeChar

def Escaped (arrivals : List Arrival) (page : Page) : Prop :=
  Shows (fun source bytes => ∃ text, Sent arrivals source text ∧ bytes = displayed source text) page

def Plain (text : List UInt8) : Prop := ∀ c ∈ text, c ∉ escapeTable.map Prod.fst

instance (text : List UInt8) : Decidable (Plain text) := inferInstanceAs (Decidable (∀ c ∈ text, _))

-- A signup that stores an account, and a search by a client that is logged in,
-- bring no character that has an entity.
def PlainTexts (world : World) (arrival : Arrival) : Prop :=
  match arrival.route with
  | .signup =>
      arrival.req.method = .POST ∧ getAccount world.db arrival.req.cookies = .ok none ∧
          signupValid world.db (signupForm arrival.req) = true ∧
          accountCheckEmail world.db (signupForm arrival.req).email = true →
        Plain (signupForm arrival.req).name.data ∧ Plain (signupForm arrival.req).email.data
  | .search =>
      (∃ me, getAccount world.db arrival.req.cookies = .ok (some me)) →
        Plain (basicStringInit (queryGet arrival.req.queryString (ascii "q"))).data
  | _ => True

def ShownRight (arrivals : List Arrival) (source : Source) (bytes : List UInt8) : Prop :=
  0 ∉ bytes ∧ ∃ text, Sent arrivals source text ∧ bytes = displayed source text

-- Names and emails are stored as they were sent, and were sent without the
-- characters; bodies are stored escaped.
structure Traced (arrivals : List Arrival) (db : Database) : Prop where
  accounts : ∀ row ∈ db.accounts, ∃ name email username, Encoded row name email username ∧
    ShownRight arrivals .name name ∧ ShownRight arrivals .email email
  posts : ∀ row ∈ db.posts, ∃ text, row.body = text.flatMap escapeChar ∧ 0 ∉ text ∧ Sent arrivals .body text

theorem plain_escape (text : List UInt8) (plain : Plain text) : text.flatMap escapeChar = text := by
  refine flat_map_unchanged escapeChar text fun c member => ?_
  rw [escapeChar, List.find?_eq_none.mpr]
  intro entry inside same
  exact plain c member (List.mem_map.mpr ⟨entry, inside, (of_decide_eq_true same).symm⟩)

-- Nothing in an escaped text opens or closes a tag or an attribute.
theorem escape_char_closed (c d : UInt8) (special : d ∈ [chr '"', chr '\'', chr '<', chr '>']) : d ∉ escapeChar c := by
  rw [escapeChar]
  cases found : escapeTable.find? fun entry => c = entry.1 with
  | none =>
      intro same
      have named : ∀ d ∈ [chr '"', chr '\'', chr '<', chr '>'], ∃ entry ∈ escapeTable, d = entry.1 := by
        decide +kernel
      obtain ⟨entry, inside, key⟩ := named d special
      rw [List.mem_singleton.mp same] at key
      exact List.find?_eq_none.mp found entry inside (decide_eq_true key)
  | some entry =>
      have closed : ∀ entry ∈ escapeTable, ∀ d ∈ [chr '"', chr '\'', chr '<', chr '>'], d ∉ entry.2 := by
        decide +kernel
      exact closed entry (List.mem_of_find?_eq_some found) d special

theorem basic_string_init_clean (src : Option (List UInt8)) : 0 ∉ (basicStringInit src).data := by
  cases src with
  | none => simp [basicStringInit]
  | some text => exact (cstr_split text).1

theorem basic_string_init_eta (src : Option (List UInt8)) :
    basicStringInit src = ⟨(basicStringInit src).data, (basicStringInit src).data.length⟩ := by
  cases src with
  | none => rfl
  | some text => rfl

theorem sent_later (past : List Arrival) (arrival : Arrival) (source : Source) (text : List UInt8)
    (sent : Sent past source text) : Sent (past ++ [arrival]) source text := by
  obtain ⟨earlier, member, field⟩ := sent
  exact ⟨earlier, List.mem_append_left _ member, field⟩

theorem shown_right_later (past : List Arrival) (arrival : Arrival) (source : Source) (bytes : List UInt8)
    (right : ShownRight past source bytes) : ShownRight (past ++ [arrival]) source bytes := by
  obtain ⟨clean, text, sent, same⟩ := right
  exact ⟨clean, text, sent_later past arrival source text sent, same⟩

theorem traced_later (past : List Arrival) (arrival : Arrival) (db : Database) (traced : Traced past db) :
    Traced (past ++ [arrival]) db where
  accounts := by
    intro row member
    obtain ⟨name, email, username, encoded, nameRight, emailRight⟩ := traced.accounts row member
    exact ⟨name, email, username, encoded, shown_right_later _ _ _ _ nameRight, shown_right_later _ _ _ _ emailRight⟩
  posts := by
    intro row member
    obtain ⟨text, stored, clean, sent⟩ := traced.posts row member
    exact ⟨text, stored, clean, sent_later _ _ _ _ sent⟩

theorem traced_step (env : Env) (past : List Arrival) (world after : World) (arrival : Arrival)
    (wrote : Wrote env world arrival after) (plain : PlainTexts world arrival) (traced : Traced past world.db) :
    Traced (past ++ [arrival]) after.db := by
  have later := traced_later past arrival world.db traced
  have now : arrival ∈ past ++ [arrival] := List.mem_append_right _ (List.mem_singleton_self _)
  cases wrote with
  | account route method stranger valid free =>
      rw [PlainTexts, route] at plain
      obtain ⟨namePlain, emailPlain⟩ := plain ⟨method, stranger, valid, free⟩
      refine ⟨(forall_mem_snoc ..).mpr ⟨later.accounts, ?_⟩, later.posts⟩
      exact ⟨_, _, _, ⟨rfl, rfl, rfl⟩,
        ⟨basic_string_init_clean _, _, ⟨arrival, now, route, rfl⟩, (plain_escape _ namePlain).symm⟩,
        ⟨basic_string_init_clean _, _, ⟨arrival, now, route, rfl⟩, (plain_escape _ emailPlain).symm⟩⟩
  | post me route client size =>
      refine ⟨later.accounts, (forall_mem_snoc ..).mpr ⟨later.posts, ?_⟩⟩
      refine ⟨(formField arrival.req "post").data, ?_, basic_string_init_clean _, ⟨arrival, now, route, rfl⟩⟩
      rw [formField, basic_string_init_eta]
      exact html_escape_trans_text _
  | nothing | session | connection | like | unlike => exact ⟨later.accounts, later.posts⟩

theorem traced_known (arrivals : List Arrival) (db : Database) (traced : Traced arrivals db) :
    Known (ShownRight arrivals) db where
  accounts := by
    intro row member account read
    obtain ⟨name, email, username, encoded, nameRight, emailRight⟩ := traced.accounts row member
    rw [(encoded_row_account row name email username account encoded read).2]
    exact ⟨nameRight, rfl, emailRight, rfl⟩
  posts := by
    intro row member
    obtain ⟨text, stored, clean, sent⟩ := traced.posts row member
    have escapedClean : 0 ∉ row.body := by
      rw [stored]
      exact flat_map_clean escapeChar text clean escape_char_clean
    have read : basicStringInit (some row.body) = ⟨row.body, row.body.length⟩ := by
      rw [basicStringInit, cstr_clean _ escapedClean]
    refine ⟨?_, ?_⟩
    · rw [postOfRow, read, newline_to_br_text]
      exact ⟨flat_map_clean brChar _ escapedClean br_char_clean, text, sent, by rw [stored]; rfl⟩
    · rw [postOfRow, read]
      exact newline_to_br_size _

theorem traced_run (env : Env) (arrivals : List Arrival)
    (plain : Along (handleNext env) PlainTexts ⟨Database.empty, 0⟩ arrivals) :
    Traced arrivals (run (handleNext env) ⟨Database.empty, 0⟩ arrivals).db := by
  refine history_invariant (handleNext env) PlainTexts (fun past world => Traced past world.db) _ ?_ ?_ arrivals plain
  · exact ⟨by simp [Database.empty], by simp [Database.empty]⟩
  · intro past world arrival traced met
    exact traced_step env past world _ arrival (handle_wrote env world arrival) met traced

def ShowsTexts (arrival : Arrival) : Prop :=
  arrival.route = .dashboard ∨ arrival.route = .profile ∨ arrival.route = .search

theorem handled_page (env : Env) (world : World) (arrival : Arrival) (response : Response) (page : Page)
    (ok : Source → List UInt8 → Prop) (clean : ∀ source bytes, ok source bytes → 0 ∉ bytes) (known : Known ok world.db)
    (query : arrival.route = .search → (∃ me, getAccount world.db arrival.req.cookies = .ok (some me)) →
      ok .query (basicStringInit (queryGet arrival.req.queryString (ascii "q"))).data)
    (shows : ShowsTexts arrival) (answer : (handle env world arrival).2 = .ok (some response))
    (body : response.body = some page) : Shows ok page := by
  have called : (callHandler env world arrival).2 = .ok (some response) ∨
      notFound env (callHandler env world arrival).1.db arrival.req = .ok (some response) := by
    rw [handle] at answer
    cases outcome : (callHandler env world arrival).2 with
    | error fault => rw [outcome] at answer; cases answer
    | ok given =>
        cases given with
        | none => rw [outcome] at answer; exact .inr answer
        | some given => rw [outcome] at answer; exact .inl answer
  rcases called with given | missing
  · rcases shows with route | route | route <;> rw [callHandler, route] at given
    · exact dashboard_shows ok clean env world.db arrival.req response page known given body
    · exact profile_shows ok clean env world.db arrival.req response page known given body
    · exact search_shows ok clean env world.db arrival.req response page known (query route) given body
  · exact not_found_shows ok clean env _ arrival.req response page missing body

-- Every page of every run in which no such character is stored or searched for
-- escapes what it shows of users; bodies may hold any character.
theorem pages_escaped (env : Env) (arrivals : List Arrival) (arrival : Arrival) (response : Response) (page : Page)
    (plain : Along (handleNext env) PlainTexts ⟨Database.empty, 0⟩ (arrivals ++ [arrival])) (shows : ShowsTexts arrival)
    (answer : (handle env (run (handleNext env) ⟨Database.empty, 0⟩ arrivals) arrival).2 = .ok (some response))
    (body : response.body = some page) : Escaped (arrivals ++ [arrival]) page := by
  obtain ⟨before, last⟩ := (along_snoc (handleNext env) PlainTexts _ arrivals arrival).mp plain
  have traced := traced_later arrivals arrival _ (traced_run env arrivals before)
  have known := traced_known _ _ traced
  have now : arrival ∈ arrivals ++ [arrival] := List.mem_append_right _ (List.mem_singleton_self _)
  have right : Shows (ShownRight (arrivals ++ [arrival])) page := by
    refine handled_page env _ arrival response page _ (fun _ _ good => good.1) known ?_ shows answer body
    intro route client
    rw [PlainTexts, route] at last
    exact ⟨basic_string_init_clean _, _, ⟨arrival, now, route, rfl⟩, (plain_escape _ (last client)).symm⟩
  exact fun source bytes member => (right source bytes member).2

-- A search with the template file of the search page. The files it includes
-- show nothing of the results.
def searchHtml : List UInt8 :=
  ascii "\x7b%include templates/header.html%\x7d\n<div class=\"container text-center mt-4\">\n" ++
    ascii "    \x7b\x7bresults\x7d\x7d\n</div>\n\x7b%include templates/footer.html%\x7d"

def searchEnv : Env :=
  { plainEnv with files := fun name => if name = ascii "templates/search.html" then some searchHtml else none }

def aliceSearch : Arrival :=
  ⟨1700000000, .search, ⟨.GET, ascii "/search/?q=al@", ascii "/search/", some [(ascii "q", ascii "al@")], none,
    some aliceCookies, []⟩⟩

def resultPage (name : String) : Page :=
  [.markup [], .markup (ascii "<div class=\"container text-center mt-4\">\n    "),
    .markup (ascii "<ul class=\"search-results\">"), .markup (ascii "<li><a href=\"/profile/"), .markup (ascii "1"),
    .markup (ascii "/\">"), .user .name (ascii name), .markup (ascii "</a> (<span>"), .user .email (ascii "al@x.org"),
    .markup (ascii "</span>)</li>\n"), .markup (ascii "</ul>"), .markup (ascii "\n</div>\n")]

theorem pages_escaped_alice : Escaped ([aliceSignup, aliceLogin] ++ [aliceSearch]) (resultPage "Alice") :=
  pages_escaped searchEnv [aliceSignup, aliceLogin] aliceSearch ⟨.OK, [], some (resultPage "Alice")⟩ (resultPage "Alice")
    ⟨fun _ => by decide +kernel, trivial, fun _ => by decide +kernel, trivial⟩ (.inr (.inr rfl)) (by decide +kernel) rfl

def boldSignup : Arrival := formArrival .signup none [("name", "<b>Al</b>"), ("email", "al@x.org"), ("username", "alice"),
  ("password", "12345678"), ("confirm-password", "12345678")]

theorem name_shown_raw :
    (handle searchEnv (run (handleNext searchEnv) ⟨Database.empty, 0⟩ [boldSignup, aliceLogin]) aliceSearch).2 =
      .ok (some ⟨.OK, [], some (resultPage "<b>Al</b>")⟩) ∧
    ¬ Escaped [boldSignup, aliceLogin, aliceSearch] (resultPage "<b>Al</b>") := by
  refine ⟨by decide +kernel, fun escaped => ?_⟩
  obtain ⟨text, _, same⟩ := escaped .name (ascii "<b>Al</b>") (by decide +kernel)
  have opens : chr '<' ∈ text.flatMap escapeChar := by
    have inside : chr '<' ∈ ascii "<b>Al</b>" := by decide +kernel
    rw [same] at inside
    exact inside
  obtain ⟨c, _, fromChar⟩ := List.mem_flatMap.mp opens
  exact escape_char_closed c (chr '<') (by decide) fromChar

end Facebooc
