import Facebooc.HeaderString
import Facebooc.HttpMessage
import Facebooc.Response

set_option autoImplicit false

namespace Facebooc

open CMemory HttpMessage

-- src/response.c. A row has 25 entries, the ones behind its last text NULL.
def STATUSES : List (List String) :=
  [[""],
    ["Continue", "Switching Protocols"],
    ["OK", "Created", "Accepted", "Non-Authoritative Information", "No Content", "Reset Content", "Partial Content"],
    ["Multiple Choices", "Moved Permanently", "Found", "See Other", "Not Modified", "Use Proxy", "Switch Proxy",
      "Temporary Redirect", "Permanent Redirect"],
    ["Bad Request", "Unauthorized", "Payment Required", "Forbidden", "Not Found", "Method Not Allowed", "Not Acceptable",
      "Proxy Authentication Required", "Request Timeout", "Conflict", "Gone", "Length Required", "Precondition Failed",
      "Request Entity Too Large", "Request-URI Too Long", "Unsupported Media Type", "Requested Range Not Satisfiable",
      "Expectation Failed", "I'm A Teapot", "Authentication Timeout", "Enhance Your Calm"],
    ["Internal Server Error", "Not Implemented", "Bad Gateway", "Service Unavailable", "Gateway Timeout",
      "HTTP Version Not Supported"]]

def Status.code : Status → Nat
  | .OK => 200
  | .FOUND => 302
  | .NOT_FOUND => 404

def statusText (status : Nat) : Except Fault (List UInt8) :=
  match STATUSES[status / 100]? with
  | none => .error .bounds
  | some row =>
      match row[status % 100]? with
      | none => .error .null
      | some text => .ok (ascii text)

def statusLine (status : Nat) : Except Fault (List UInt8) := do
  let text ← statusText status
  .ok ((ascii "HTTP/1.0 " ++ decimal status ++ ascii " " ++ text ++ ascii "\r\n").take 127)

-- What the sends are given, one behind the other, and what is left in
-- RESP_SIZE.
def responseWrite (respSize : UInt32) (status : Status) (header : Header) (body : List UInt8) :
    Except Fault (UInt32 × List UInt8) := do
  let line ← statusLine status.code
  let (respSize, sbuf) ← headerToString respSize header
  let head ← match sbuf with
    | none => .ok []
    | some sbuf => cstrAt sbuf 0
  .ok (respSize, line ++ head ++ ascii "\r\n" ++ body)

-- The line without its end, and the message of the three sends.
def startLine : Status → List UInt8
  | .OK => ascii "HTTP/1.0 200 OK"
  | .FOUND => ascii "HTTP/1.0 302 Found"
  | .NOT_FOUND => ascii "HTTP/1.0 404 Not Found"

theorem status_line_known (status : Status) : statusLine status.code = .ok (startLine status ++ crlf) := by
  cases status <;> decide +kernel

theorem start_line_sound (status : Status) : OneLine (startLine status) := by
  cases status <;> decide +kernel

-- As long as the text fits, RESP_SIZE stays as it is.
theorem header_string_loop_small (h : Header) (respSize : UInt32) (done junk : List UInt8)
    (doubled : Doubled respSize.toNat) (length : (done ++ junk).length = respSize.toNat)
    (fits : (done ++ h.flatMap entryText).length < respSize.toNat) (stopped : h = [] → ∃ rest, junk = 0 :: rest) :
    ∃ rest, headerStringLoop h respSize (done ++ junk) done.length =
      .ok (respSize, done ++ h.flatMap entryText ++ 0 :: rest) := by
  induction h generalizing done junk with
  | nil =>
      obtain ⟨rest, rfl⟩ := stopped rfl
      exact ⟨rest, by simp [headerStringLoop]⟩
  | cons entry h ih =>
      simp only [List.flatMap_cons, List.length_append] at fits
      have need : done.length + (entryText entry).length + 1 ≤ respSize.toNat := by omega
      obtain ⟨grown, spare, step, _, size, value⟩ :=
        header_string_step entry h respSize done junk doubled length (.inl need)
      rw [if_pos need] at value
      obtain rfl : grown = respSize := UInt32.toNat_inj.mp value
      obtain ⟨rest, ran⟩ := ih (done ++ entryText entry) (0 :: spare) size
        (by simp only [List.length_append]; omega) (fun _ => ⟨_, rfl⟩)
      refine ⟨rest, ?_⟩
      rw [step, ran, List.flatMap_cons, List.append_assoc done]

theorem header_to_string_small (respSize : UInt32) (h : Header) (doubled : Doubled respSize.toNat) (nonempty : h ≠ [])
    (fits : (h.flatMap entryText).length < respSize.toNat) :
    ∃ rest, headerToString respSize h = .ok (respSize, some (h.flatMap entryText ++ 0 :: rest)) := by
  obtain ⟨rest, ran⟩ := header_string_loop_small h respSize [] (List.replicate respSize.toNat 0) doubled
    (by rw [List.nil_append, List.length_replicate]) (by simpa using fits) (fun empty => absurd empty nonempty)
  simp only [List.nil_append, List.length_nil, Int.natCast_zero] at ran
  exact ⟨rest, by rw [headerToString, if_neg nonempty, ran]; rfl⟩

-- Headers that can be told apart on the wire and need no more room than the
-- 2048 bytes RESP_SIZE begins with.
structure SendableHeader (h : Header) : Prop where
  names : ∀ entry ∈ h, OneLine entry.1 ∧ 58 ∉ entry.1 ∧ 0 ∉ entry.1
  values : ∀ entry ∈ h, OneLine entry.2 ∧ 0 ∉ entry.2
  short : (h.flatMap entryText).length < 2048

theorem sendable_sound (status : Status) (h : Header) (body : List UInt8) (sendable : SendableHeader h) :
    (Message.mk (startLine status) h body).Sound where
  start := start_line_sound status
  names := fun entry member => ⟨(sendable.names entry member).1, (sendable.names entry member).2.1⟩
  values := fun entry member => (sendable.values entry member).1

theorem response_written (status : Status) (h : Header) (body : List UInt8) (sendable : SendableHeader h) :
    responseWrite 2048 status h body = .ok (2048, (Message.mk (startLine status) h body).bytes) := by
  have texts : h.flatMap (fun entry => fieldLine entry ++ crlf) = h.flatMap entryText := rfl
  rw [Message.bytes, texts]
  by_cases empty : h = []
  · subst empty
    simp only [responseWrite, status_line_known, bind, Except.bind]
    rfl
  · have doubled : Doubled (2048 : UInt32).toNat := ⟨0, by decide, by decide⟩
    obtain ⟨rest, written⟩ := header_to_string_small 2048 h doubled empty sendable.short
    have text := cstr_at_start (h.flatMap entryText) rest
      (entry_texts_clean h fun entry member => ⟨(sendable.names entry member).2.2, (sendable.values entry member).2⟩)
    simp only [responseWrite, status_line_known, written, text, bind, Except.bind]
    rfl

end Facebooc
