import ResumableCsv.Error
import ResumableCsv.Outcome
import ResumableCsv.Selection.Basic
import ResumableCsv.Text.Numeral

/-!
Reading a selection expression: terms between commas, after an exclamation mark when the selection
is inverted. A term is a column, a column with an occurrence in brackets, or a range between two
columns, open or closed. Positions are written from one. Every step hands on the characters it
leaves, and a complaint carries the characters it points at.
-/

namespace ResumableCsv.Selection

/-- A complaint about an expression, with the rest of the expression from where it holds. -/
structure Complaint where
  fragment : List Char
  fault : SelectionFault
deriving DecidableEq, Repr

structure Endpoint where
  text : List Char
  quoted : Bool
deriving DecidableEq, Repr

def consText (c : Char) (parsed : List Char × List Char) : List Char × List Char :=
  (c :: parsed.1, parsed.2)

/-- The text up to the closing quote; `opening` is where the quoted column started. -/
def quotedText (opening : List Char) : List Char → Except Complaint (List Char × List Char)
  | [] => .error ⟨opening, .unterminatedQuote⟩
  | ['\\'] => .error ⟨[], .danglingEscape⟩
  | '\\' :: c :: rest => (quotedText opening rest).map (consText c)
  | c :: rest => if c = '"' then .ok ([], rest) else (quotedText opening rest).map (consText c)

/-- The text up to a comma, a dash or an opening bracket. -/
def bareText : List Char → Except Complaint (List Char × List Char)
  | [] => .ok ([], [])
  | ['\\'] => .error ⟨[], .danglingEscape⟩
  | '\\' :: c :: rest => (bareText rest).map (consText c)
  | c :: rest =>
    if c = ',' ∨ c = '-' ∨ c = '[' then .ok ([], c :: rest)
    else (bareText rest).map (consText c)

def endpoint (input : List Char) : Except Complaint (Endpoint × List Char) :=
  match Text.trimStart input with
  | '"' :: body => do
    let (text, rest) ← quotedText ('"' :: body) body
    pure (⟨text, true⟩, Text.trimStart rest)
  | input => do
    let (text, rest) ← bareText input
    pure (⟨Text.trim text, false⟩, rest)

/-- The column an endpoint stands for: digits alone are a position unless they were quoted. -/
def columnKey (endpoint : Endpoint) (start : List Char) : Except Complaint ColumnKey :=
  if endpoint.quoted then .ok (.named (String.ofList endpoint.text))
  else if endpoint.text = [] then .error ⟨start, .expectedColumn⟩
  else if endpoint.text.all Text.isAsciiDigit then
    match Text.readDigits? endpoint.text with
    | none => .error ⟨endpoint.text, .positionTooLarge⟩
    | some 0 => .error ⟨endpoint.text, .positionZero⟩
    | some (index + 1) => .ok (.position index)
  else .ok (.named (String.ofList endpoint.text))

/-- Digits up to a closing bracket. -/
def bracketDigits : List Char → Option (List Char × List Char)
  | [] => none
  | c :: rest =>
    if c = ']' then some ([], rest)
    else if Text.isAsciiDigit c then
      (bracketDigits rest).map fun (digits, rest) => (c :: digits, rest)
    else none

def occurrence (start input : List Char) : Except Complaint (Nat × List Char) :=
  match bracketDigits input with
  | none => .error ⟨start, .malformedOccurrence⟩
  | some (digits, rest) =>
    match Text.readDigits? digits with
    | none => .error ⟨start, .malformedOccurrence⟩
    | some n => .ok (n, rest)

/-- The end of a range, which stays open before a comma and at the end of the expression. -/
def rangeEnd (input : List Char) : Except Complaint (Option ColumnKey × List Char) :=
  match Text.trimStart input with
  | [] => pure (none, [])
  | ',' :: rest => pure (none, ',' :: rest)
  | start => do
    let (last, rest) ← endpoint start
    match rest with
    | '[' :: _ => .error ⟨start, .rangeOverOccurrence⟩
    | _ => do
      let key ← columnKey last start
      pure (some key, rest)

def term (input : List Char) : Except Complaint (Selector × List Char) := do
  let start := Text.trimStart input
  let (first, rest) ← endpoint start
  if first.text = [] ∧ first.quoted = false then .error ⟨start, .expectedColumn⟩
  else
    match rest with
    | '[' :: rest => do
      let (n, rest) ← occurrence start rest
      match Text.trimStart rest with
      | '-' :: _ => .error ⟨start, .rangeOverOccurrence⟩
      | rest => pure (.indexed (String.ofList first.text) n, rest)
    | '-' :: rest => do
      let key ← columnKey first start
      let (last, rest) ← rangeEnd rest
      pure (.range key last, rest)
    | rest => do
      let key ← columnKey first start
      pure (.single key, rest)

theorem quotedText_length {opening input text rest : List Char}
    (parsed : quotedText opening input = .ok (text, rest)) : rest.length ≤ input.length := by
  fun_induction quotedText opening input generalizing text rest with
  | case1 => cases parsed
  | case2 => cases parsed
  | case3 c tail ih =>
    obtain ⟨inner, found, same⟩ := Outcome.map_eq_ok_iff.mp parsed
    have bound := ih found
    cases same
    simp only [List.length_cons]
    omega
  | case4 tail =>
    cases parsed
    simp
  | case5 c tail _ _ _ ih =>
    obtain ⟨inner, found, same⟩ := Outcome.map_eq_ok_iff.mp parsed
    have bound := ih found
    cases same
    simp only [List.length_cons]
    omega

theorem bareText_length {input text rest : List Char}
    (parsed : bareText input = .ok (text, rest)) : rest.length ≤ input.length := by
  fun_induction bareText input generalizing text rest with
  | case1 =>
    cases parsed
    simp
  | case2 => cases parsed
  | case3 c tail ih =>
    obtain ⟨inner, found, same⟩ := Outcome.map_eq_ok_iff.mp parsed
    have bound := ih found
    cases same
    simp only [List.length_cons]
    omega
  | case4 c tail _ stop =>
    cases parsed
    simp
  | case5 c tail _ _ _ ih =>
    obtain ⟨inner, found, same⟩ := Outcome.map_eq_ok_iff.mp parsed
    have bound := ih found
    cases same
    simp only [List.length_cons]
    omega

theorem endpoint_length {input rest : List Char} {found : Endpoint}
    (parsed : endpoint input = .ok (found, rest)) : rest.length ≤ input.length := by
  have trimmed := Text.length_trimStart_le input
  unfold endpoint at parsed
  split at parsed
  next body same =>
    obtain ⟨⟨text, left⟩, read, built⟩ := Outcome.do_eq_ok_iff.mp parsed
    have bound := quotedText_length read
    have after := Text.length_trimStart_le left
    cases built
    simp only [same, List.length_cons] at trimmed
    omega
  next =>
    obtain ⟨⟨text, left⟩, read, built⟩ := Outcome.do_eq_ok_iff.mp parsed
    have bound := bareText_length read
    cases built
    omega

theorem bracketDigits_length {input digits rest : List Char}
    (parsed : bracketDigits input = some (digits, rest)) : rest.length ≤ input.length := by
  fun_induction bracketDigits input generalizing digits rest with
  | case1 => cases parsed
  | case2 tail =>
    cases parsed
    simp
  | case3 c tail _ _ ih =>
    obtain ⟨⟨inner, left⟩, found, same⟩ := Option.map_eq_some_iff.mp parsed
    have bound := ih found
    cases same
    simp only [List.length_cons]
    omega
  | case4 => cases parsed

theorem occurrence_length {start input rest : List Char} {n : Nat}
    (parsed : occurrence start input = .ok (n, rest)) : rest.length ≤ input.length := by
  unfold occurrence at parsed
  split at parsed
  next => cases parsed
  next digits left found =>
    split at parsed
    next => cases parsed
    next =>
      cases parsed
      exact bracketDigits_length found

theorem rangeEnd_length {input rest : List Char} {last : Option ColumnKey}
    (parsed : rangeEnd input = .ok (last, rest)) : rest.length ≤ input.length := by
  have trimmed := Text.length_trimStart_le input
  unfold rangeEnd at parsed
  split at parsed
  next =>
    cases parsed
    simp
  next same =>
    cases parsed
    rwa [same] at trimmed
  next =>
    obtain ⟨⟨found, left⟩, read, checked⟩ := Outcome.do_eq_ok_iff.mp parsed
    have bound := endpoint_length read
    dsimp only at checked
    split at checked
    next => cases checked
    next =>
      obtain ⟨key, _, built⟩ := Outcome.do_eq_ok_iff.mp checked
      cases built
      omega

theorem term_length {input rest : List Char} {selector : Selector}
    (parsed : term input = .ok (selector, rest)) : rest.length ≤ input.length := by
  have trimmed := Text.length_trimStart_le input
  obtain ⟨⟨first, left⟩, read, checked⟩ := Outcome.do_eq_ok_iff.mp parsed
  have bound := endpoint_length read
  dsimp only at checked
  split at checked
  next => cases checked
  next =>
    split at checked
    next tail =>
      obtain ⟨⟨n, after⟩, counted, built⟩ := Outcome.do_eq_ok_iff.mp checked
      have shorter := occurrence_length counted
      have skipped := Text.length_trimStart_le after
      simp only [List.length_cons] at bound
      dsimp only at built
      split at built
      next => cases built
      next =>
        cases built
        omega
    next tail =>
      obtain ⟨key, _, continued⟩ := Outcome.do_eq_ok_iff.mp checked
      obtain ⟨⟨last, after⟩, ended, built⟩ := Outcome.do_eq_ok_iff.mp continued
      have shorter := rangeEnd_length ended
      simp only [List.length_cons] at bound
      cases built
      dsimp only
      omega
    next =>
      obtain ⟨key, _, built⟩ := Outcome.do_eq_ok_iff.mp checked
      cases built
      omega

/-- Terms separated by commas up to the end of the expression. -/
def terms (input : List Char) : Except Complaint (List Selector) :=
  match _parsed : term input with
  | .error complaint => .error complaint
  | .ok (selector, rest) =>
    match _after : Text.trimStart rest with
    | [] => .ok [selector]
    | c :: more =>
      if c = ',' then (terms more).map (selector :: ·)
      else .error ⟨c :: more, .unexpectedCharacter⟩
termination_by input.length
decreasing_by
  have bound := term_length _parsed
  have trimmed := Text.length_trimStart_le rest
  simp only [_after, List.length_cons] at trimmed
  omega

/-- The inversion mark and the terms behind it. -/
def splitMark (text : List Char) : Bool × List Char :=
  match Text.trimStart text with
  | '!' :: body => (true, body)
  | body => (false, body)

def ofChars (text : List Char) : Except Complaint Selection :=
  let (inverted, body) := splitMark text
  if (Text.trim body).isEmpty then .error ⟨body, .emptySelection⟩
  else (terms body).map fun selectors => ⟨selectors, inverted⟩

/-- Reads a selection expression. -/
def parse (text : String) : Except Error Selection :=
  (ofChars text.toList).mapError fun complaint =>
    .selectionSyntax text (String.ofList complaint.fragment) complaint.fault

end ResumableCsv.Selection
