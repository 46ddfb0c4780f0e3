import Campagnol.Config.Parser

/-!
# Reading and writing the configuration

The syntax of the configuration files, `common/config_io.c`: the two state machines of the reader
with their look-ahead and escapes, and the writer. A loop of the reader takes at least one byte each
time round or ends, so that the number of bytes left bounds it.
-/

namespace Campagnol
namespace Config

/-! ## The read buffer -/

/-- `position_t`: line and column. -/
structure Position where
  line : ℕ
  c : ℕ
deriving DecidableEq, Repr

/-- `read_buf_t`, with the messages of the reader. The first byte of `input` is the look-ahead; the
others are still in the file. -/
structure ReadBuf where
  input : Bytes
  pos : Position
  log : List (Position × String)
deriving DecidableEq, Repr

/-- `read_buf_init` and `position_init`. -/
def ReadBuf.init (file : Bytes) : ReadBuf := ⟨file, ⟨1, 1⟩, []⟩

/-- `position_inc_line` or `position_inc_char`. -/
def Position.inc (pos : Position) (c : UInt8) : Position :=
  if c = newline then ⟨pos.line + 1, 1⟩ else { pos with c := pos.c + 1 }

namespace ReadBuf

/-- `read_buf_next`: it makes a newline of CR LF. At the end of the file it returns `none`. -/
def next (rb : ReadBuf) : Option UInt8 × ReadBuf :=
  match rb.input with
  | [] => (none, rb)
  | c :: rest =>
    if c = carriageReturn ∧ rest.head? = some newline then
      (some newline, { rb with input := rest.tail, pos := rb.pos.inc newline })
    else (some c, { rb with input := rest, pos := rb.pos.inc c })

/-- `read_buf_peek`. -/
def peek (rb : ReadBuf) : Option UInt8 := rb.input.head?

/-- `log_message`, with the position. -/
def logMessage (rb : ReadBuf) (text : String) : ReadBuf :=
  { rb with log := rb.log ++ [(rb.pos, text)] }

/-- `log_message`, with a line only. -/
def logLine (rb : ReadBuf) (line : ℕ) (text : String) : ReadBuf :=
  { rb with log := rb.log ++ [(⟨line, 0⟩, text)] }

end ReadBuf

/-! ## Escapes -/

/-- `isdigit`. -/
def isdigit (c : UInt8) : Bool := 48 ≤ c && c ≤ 57

/-- `isxdigit`. -/
def isxdigit (c : UInt8) : Bool := isdigit c || (97 ≤ c && c ≤ 102) || (65 ≤ c && c ≤ 70)

/-- `hextoint`. -/
def hextoint (c : UInt8) : ℕ :=
  if isdigit c then c.toNat - 48 else if 97 ≤ c && c ≤ 122 then c.toNat - 97 + 10
  else c.toNat - 65 + 10

/-- `isoctdigit`. -/
def isoctdigit (c : UInt8) : Bool := 48 ≤ c && c ≤ 55

/-- `octtoint`. -/
def octtoint (c : UInt8) : ℕ := c.toNat - 48

/-- The hexadecimal escapes of `char_unescape`, with up to two digits. -/
def unescapeHex (sb : StrBuf) (rb : ReadBuf) : StrBuf × ReadBuf :=
  match rb.peek.filter isxdigit with
  | none => ((sb.push backslash).push 120, rb)
  | some c =>
    let rb := rb.next.2
    match rb.peek.filter isxdigit with
    | none => (sb.push (UInt8.ofNat (hextoint c)), rb)
    | some c' => (sb.push (UInt8.ofNat (hextoint c * 16 + hextoint c')), rb.next.2)

/-- The octal escapes of `char_unescape`, with up to three digits. -/
def unescapeOct (sb : StrBuf) (c : UInt8) (rb : ReadBuf) : StrBuf × ReadBuf :=
  match rb.peek.filter isoctdigit with
  | none => (sb.push (UInt8.ofNat (octtoint c)), rb)
  | some c' =>
    let rb := rb.next.2
    let v := octtoint c * 8 + octtoint c'
    match rb.peek.filter isoctdigit with
    | none => (sb.push (UInt8.ofNat v), rb)
    | some c'' => (sb.push (UInt8.ofNat (v * 8 + octtoint c'')), rb.next.2)

/-- `char_unescape`. -/
def charUnescape (sb : StrBuf) (c : UInt8) (rb : ReadBuf) : StrBuf × ReadBuf :=
  match c with
  | 92 | 34 | 39 | 63 => (sb.push c, rb) -- \ " ' ?
  | 110 => (sb.push 10, rb) -- n
  | 114 => (sb.push 13, rb) -- r
  | 98 => (sb.push 8, rb) -- b
  | 116 => (sb.push 9, rb) -- t
  | 102 => (sb.push 12, rb) -- f
  | 97 => (sb.push 7, rb) -- a
  | 118 => (sb.push 11, rb) -- v
  | 120 => unescapeHex sb rb -- x
  | 35 | 59 | 91 | 93 | 61 => (sb.push c, rb) -- # ; [ ] =
  | c => if isoctdigit c then unescapeOct sb c rb else ((sb.push backslash).push c, rb)

/-- What `char_escape` writes for a character. -/
def escaped (c : UInt8) : Bytes :=
  match c with
  | 92 | 34 => [backslash, c] -- \ "
  | 10 => [backslash, 110] -- n
  | 13 => [backslash, 114] -- r
  | 8 => [backslash, 98] -- b
  | 9 => [backslash, 116] -- t
  | 12 => [backslash, 102] -- f
  | 7 => [backslash, 97] -- a
  | 11 => [backslash, 118] -- v
  | 35 | 59 | 91 | 93 | 61 => [backslash, c] -- # ; [ ] =
  | c => [c]

/-- `char_escape`. -/
def charEscape (sb : StrBuf) (c : UInt8) : StrBuf := sb.append (escaped c)

/-! ## Identifiers -/

/-- `comment`: the character starts a comment. -/
def isComment (c : UInt8) : Bool := c = hash || c = semicolon

/-- `enum idt_states`. -/
inductive IdtState where
  | start
  | beginSection
  | readSection
  | readSectionEsc
  | afterSection
  | readName
  | readNameEsc
  | comment
  | afterComment
  | skip
  | stop
deriving DecidableEq, Repr

/-- The result of `nparser_get_next_idt`: -1, 0, 1 or 2. -/
inductive IdtResult where
  | error
  | eof
  | sectionName
  | keyName
deriving DecidableEq, Repr

/-- The variables of `nparser_get_next_idt`. -/
structure Idt where
  state : IdtState
  r : IdtResult
  sb : StrBuf
  rb : ReadBuf

namespace Idt

/-- A syntax error. -/
def fail (v : Idt) (state : IdtState) (text : String) : Idt :=
  { v with state := state, r := .error, rb := v.rb.logMessage text }

/-- The character `c` becomes a part of the identifier. -/
def push (v : Idt) (c : UInt8) : Idt := { v with sb := v.sb.push c }

/-- An escaped character, after which the state is `state`. -/
def unescape (v : Idt) (c : UInt8) (state : IdtState) : Idt :=
  { v with
    state := state
    sb := (charUnescape v.sb c v.rb).1
    rb := (charUnescape v.sb c v.rb).2 }

/-- The `switch` of `nparser_get_next_idt`, for the character `c` or the end of the file. -/
def switch (v : Idt) (c : Option UInt8) : Idt :=
  match v.state, c with
  | .start, none => { v with state := .stop }
  | .start, some c =>
    if c = leftBracket then { v with state := .beginSection }
    else if isComment c then { v with state := .comment }
    else if c = rightBracket then v.fail .skip "Syntax error: section declaration"
    else if c = equals then v.fail .skip "Syntax error: empty name"
    else if !isblank c && c ≠ newline then { v.push c with state := .readName }
    else v
  | .beginSection, none => v.fail .stop "Syntax error: section declaration"
  | .beginSection, some c =>
    if c = newline then v.fail .stop "Syntax error: section declaration"
    else if isComment c then v.fail .skip "Syntax error: section declaration"
    else if c = rightBracket then v.fail .skip "Syntax error: empty section"
    else if !isblank c then { v.push c with state := .readSection }
    else v
  | .readSection, none => v.fail .stop "Syntax error: section declaration"
  | .readSection, some c =>
    if c = newline then v.fail .stop "Syntax error: section declaration"
    else if c = backslash then { v with state := .readSectionEsc }
    else if isComment c then v.fail .skip "Syntax error: section declaration"
    else if c = rightBracket then { v with state := .afterSection, r := .sectionName }
    else v.push c
  | .readSectionEsc, none =>
    v.fail .stop "Syntax error: line continuation not allowed in identifiers"
  | .readSectionEsc, some c =>
    if c = newline then v.fail .stop "Syntax error: line continuation not allowed in identifiers"
    else v.unescape c .readSection
  | .afterSection, none => { v with state := .stop }
  | .afterSection, some c =>
    if c = newline then { v with state := .stop }
    else if isComment c then { v with state := .afterComment }
    else if !isblank c then
      { v with
        state := .skip
        rb := v.rb.logMessage "Syntax error: ignoring the text after the declaration" }
    else v
  | .readName, none => v.fail .stop "Syntax error: no value"
  | .readName, some c =>
    if c = newline then v.fail .stop "Syntax error: no value"
    else if c = backslash then { v with state := .readNameEsc }
    else if isComment c then v.fail .skip "Syntax error: no value"
    else if c = equals then { v with state := .stop, r := .keyName }
    else v.push c
  | .readNameEsc, none => v.fail .stop "Syntax error: line continuation not allowed in identifiers"
  | .readNameEsc, some c =>
    if c = newline then v.fail .stop "Syntax error: line continuation not allowed in identifiers"
    else v.unescape c .readName
  | .comment, none => { v with state := .stop }
  | .comment, some c => if c = newline then { v with state := .start } else v
  | .afterComment, none => { v with state := .stop }
  | .afterComment, some c => if c = newline then { v with state := .stop } else v
  | .skip, none => { v with state := .stop }
  | .skip, some c => if c = newline then { v with state := .stop } else v
  | .stop, _ => v

/-- The loop of `nparser_get_next_idt`, at most `n` times round. -/
def loop : ℕ → Idt → Idt
  | 0, v => v
  | n + 1, v =>
    if v.state = .stop then v else loop n ({ v with rb := v.rb.next.2 }.switch v.rb.next.1)

end Idt

/-- `nparser_get_next_idt`: its result, the identifier, and the read buffer. -/
def nparserGetNextIdt (rb : ReadBuf) : IdtResult × StrBuf × ReadBuf :=
  let v := Idt.loop (rb.input.length + 1) ⟨.start, .eof, .reset, rb⟩
  (v.r, if v.r = .sectionName ∨ v.r = .keyName then v.sb.rstrip else v.sb, v.rb)

/-! ## Values -/

/-- `enum val_states`. -/
inductive ValState where
  | start
  | inQuote
  | inQuoteEsc
  | inUnquoted
  | inUnquotedEsc
  | comment
  | stop
deriving DecidableEq, Repr

/-- The variables of `nparser_get_next_value`. `ok` says that its result is 0. -/
structure Val where
  state : ValState
  ok : Bool
  sb : StrBuf
  rb : ReadBuf

namespace Val

/-- The end of the file in a value. -/
def fail (v : Val) : Val := { v with state := .stop, ok := false }

/-- The character `c` becomes a part of the value. -/
def push (v : Val) (c : UInt8) : Val := { v with sb := v.sb.push c }

/-- An escaped character, after which the state is `state`. -/
def unescape (v : Val) (c : UInt8) (state : ValState) : Val :=
  { v with
    state := state
    sb := (charUnescape v.sb c v.rb).1
    rb := (charUnescape v.sb c v.rb).2 }

/-- The `switch` of `nparser_get_next_value`, for the character `c` or the end of the file. -/
def switch (v : Val) (c : Option UInt8) : Val :=
  match v.state, c with
  | .start, none => { v with state := .stop }
  | .start, some c =>
    if c = newline then { v with state := .stop }
    else if isComment c then { v with state := .comment }
    else if isblank c then v
    else if c = quote then { v with state := .inQuote }
    else if c = backslash then { v with state := .inUnquotedEsc }
    else { v.push c with state := .inUnquoted }
  | .inQuote, none => v.fail
  | .inQuote, some c =>
    if c = newline then v.push newline
    else if c = quote then { v with state := .start, sb := v.sb.setmark v.sb.s.length }
    else if c = backslash then { v with state := .inQuoteEsc }
    else v.push c
  | .inQuoteEsc, none => v.fail
  | .inQuoteEsc, some c =>
    if c = newline then { v with state := .inQuote } else v.unescape c .inQuote
  | .inUnquoted, none => { v with state := .stop, sb := v.sb.rstrip }
  | .inUnquoted, some c =>
    if c = newline then { v with state := .stop, sb := v.sb.rstrip }
    else if c = backslash then { v with state := .inUnquotedEsc }
    else if c = quote then { v with state := .inQuote, sb := v.sb.rstrip }
    else v.push c
  | .inUnquotedEsc, none => v.fail
  | .inUnquotedEsc, some c =>
    if c = newline then { v with state := .start, sb := v.sb.rstrip } else v.unescape c .inUnquoted
  | .comment, none => { v with state := .stop }
  | .comment, some c => if c = newline then { v with state := .stop } else v
  | .stop, _ => v

/-- The loop of `nparser_get_next_value`, at most `n` times round. -/
def loop : ℕ → Val → Val
  | 0, v => v
  | n + 1, v =>
    if v.state = .stop then v else loop n ({ v with rb := v.rb.next.2 }.switch v.rb.next.1)

end Val

/-- `nparser_get_next_value`: whether it succeeds, the value, and the read buffer. -/
def nparserGetNextValue (rb : ReadBuf) : Bool × StrBuf × ReadBuf :=
  let v := Val.loop (rb.input.length + 1) ⟨.start, true, .reset, rb⟩
  (v.ok, v.sb, if v.ok then v.rb else v.rb.logMessage "Syntax error: unexpected end of file")

/-! ## `parser_read` -/

/-- `SECTION_DEFAULT`. -/
def sectionDefault : Bytes := [68, 69, 70, 65, 85, 76, 84]

/-- The variables of `parser_read`. -/
structure Reading where
  rb : ReadBuf
  sbSection : StrBuf
  parser : ParserContext

namespace Reading

/-- The body of the loop of `parser_read` for a key, whose value is read from `rb`. -/
def readKey (v : Reading) (rb : ReadBuf) (sbIdt : StrBuf) : Reading :=
  let line := rb.pos.line
  let (ok, sbVal, rb) := nparserGetNextValue rb
  if !ok then { v with rb := rb }
  else if !v.parser.allowEmptyValue && (cstr sbVal.s).bytes.length = 0 then
    { v with rb := rb.logLine line "Syntax error, empty value" }
  else if !v.parser.allowDefault && v.sbSection.s.length = 0 then
    { v with rb := rb.logLine line "Syntax error, option outside of a section" }
  else
    let sbSection :=
      if v.parser.allowDefault && v.sbSection.s.length = 0 then v.sbSection.append sectionDefault
      else v.sbSection
    { rb := rb
      sbSection := sbSection
      parser := parserSet (cstr sbSection.s) (cstr sbIdt.s) (cstr sbVal.s) line v.parser }

/-- The loop of `parser_read`, at most `n` times round. -/
def loop : ℕ → Reading → Reading
  | 0, v => v
  | n + 1, v =>
    match nparserGetNextIdt v.rb with
    | (.eof, _, rb) => { v with rb := rb }
    | (.sectionName, sbIdt, rb) =>
      loop n { v with rb := rb, sbSection := StrBuf.reset.append sbIdt.s }
    | (.keyName, sbIdt, rb) => loop n (v.readKey rb sbIdt)
    | (.error, _, rb) => loop n { v with rb := rb }

end Reading

/-- `parser_read`, for the bytes of the file. -/
def parserRead (file : Bytes) (parser : ParserContext) : ParserContext :=
  (Reading.loop (file.length + 1) ⟨.init file, .reset, parser⟩).parser

/-! ## `parser_write` -/

/-- `for (; *c != '\0'; c++) char_escape(&sb_out, *c);` -/
def escapeInto (sb : StrBuf) (s : CString) : StrBuf := s.bytes.foldl charEscape sb

/-- The line of a section. -/
def sectionLine (name : CString) : Bytes :=
  let sb := StrBuf.reset.append [leftBracket, space]
  let sb := escapeInto sb name
  (sb.append [space, rightBracket, newline]).s

/-- The line of a value. -/
def valueLine (key value : CString) : Bytes :=
  let sb := StrBuf.reset.append [space, space]
  let sb := escapeInto sb key
  let sb := sb.append [space, equals, space, quote]
  let sb := escapeInto sb value
  (sb.append [quote, newline]).s

/-- What `parser_write` writes for a section. -/
def writeSection (item : ItemSection) : Bytes :=
  sectionLine item.name ++
    item.keys.toList.flatMap (fun key => key.valuesList.flatMap fun value =>
      valueLine key.name value.s) ++
    [newline]

/-- `parser_write`, without expansion of the values: the bytes of the file. -/
def parserWrite (parser : ParserContext) : Bytes := parser.sections.toList.flatMap writeSection

end Config
end Campagnol
