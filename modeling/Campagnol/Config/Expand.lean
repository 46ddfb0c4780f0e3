import Campagnol.Config.Parser

/-!
# Expansion of the values

`parser_value_expand` of `common/config_parser.c`, over the memory of the values of a section: the
raw strings, in which a closing brace is overwritten by a NUL for a while, the buffers, and the
flags. The depth of the recursion is bounded by an argument; `none` says that the bound was too
small.
-/

namespace Campagnol
namespace Config

/-- The character `$`. -/
abbrev dollar : UInt8 := 36
/-- The character `{`. -/
abbrev leftBrace : UInt8 := 123
/-- The character `}`. -/
abbrev rightBrace : UInt8 := 125

/-! ## Memory -/

/-- A pointer to a value: its key and its place in the list. -/
abbrev ValuePtr := ℕ × ℕ

/-- The memory of a value. `s` are the bytes before the terminating NUL. -/
structure ValueMem where
  s : Bytes
  expanded : StrBuf
  expanding : Bool

/-- The memory of the values of a section, and the positions of the raw strings that have been read
or written. -/
structure Memory where
  value : ValuePtr → ValueMem
  touched : List (ValuePtr × ℕ)

namespace Memory

def set (m : Memory) (p : ValuePtr) (v : ValueMem) : Memory :=
  { m with value := Function.update m.value p v }

/-- The positions `l` of the raw string of `p` are read. -/
def touch (m : Memory) (p : ValuePtr) (l : List ℕ) : Memory :=
  { m with touched := m.touched ++ l.map fun i => (p, i) }

/-- Write a character of the raw string. -/
def write (m : Memory) (p : ValuePtr) (i : ℕ) (c : UInt8) : Memory :=
  (m.touch p [i]).set p { m.value p with s := (m.value p).s.set i c }

/-- `strlib_push` and `strlib_append`, for the buffer of a value. -/
def append (m : Memory) (p : ValuePtr) (t : Bytes) : Memory :=
  m.set p { m.value p with expanded := (m.value p).expanded.append t }

end Memory

/-! ## `parser_value_expand` -/

/-- `strchr`, from the position `i` on. -/
def strchr (s : Bytes) (i : ℕ) (c : UInt8) : Option ℕ :=
  (((s.drop i).takeWhile (· ≠ 0)).findIdx? (· = c)).map (i + ·)

/-- The positions that `strchr` reads. -/
def strchrReads (s : Bytes) (i : ℕ) (c : UInt8) : List ℕ :=
  List.range' i (((s.drop i).takeWhile (· ≠ 0)).findIdx (· = c) + 1)

/-- `error_str`: `[RECURSION ERROR]`. -/
def errorStr : Bytes := [91, 82, 69, 67, 85, 82, 83, 73, 79, 78, 32, 69, 82, 82, 79, 82, 93]

/-- `parser_value_get(-1, parser_key_get(name, section))`. -/
def lastValue (name : CString) (item : ItemSection) : Option ValuePtr :=
  (parserKeyGet name item).bind fun k =>
    (parserValueGet (-1) (item.keys.item k)).map fun i => (k, i)

/-- The reference with the `{` at `src` and the `}` at `stop`. `call` is the recursive call. -/
def expandReference (item : ItemSection)
    (call : Memory → ValuePtr → Option (Option CString × Memory)) (p : ValuePtr) (src stop : ℕ)
    (m : Memory) : Option Memory :=
  let m := m.write p stop 0
  let m := m.touch p (List.range' (src + 1) (stop - src))
  match lastValue (cstr ((m.value p).s.drop (src + 1))) item with
  | some q =>
    (call m q).map fun r =>
      let rplc := (r.1.map CString.bytes).getD errorStr
      (r.2.append p rplc).write p stop rightBrace
  | none =>
    let m := m.touch p (List.range' (src - 1) (stop - src + 2))
    let m := m.append p ((cstr ((m.value p).s.drop (src - 1))).bytes ++ [rightBrace])
    some (m.write p stop rightBrace)

/-- The loop of `parser_value_expand`, at most `n` times round. -/
def expandLoop (item : ItemSection) (call : Memory → ValuePtr → Option (Option CString × Memory))
    (p : ValuePtr) : ℕ → ℕ → Bool → Memory → Option Memory
  | 0, _, _, _ => none
  | n + 1, src, escaped, m =>
    let m := m.touch p [src]
    let c := (m.value p).s.getD src 0
    if c = 0 then some m
    else if !escaped then
      if c = dollar then expandLoop item call p n (src + 1) true m
      else expandLoop item call p n (src + 1) false (m.append p [c])
    else if c = leftBrace then
      -- beyond the NUL `strchr` is taken to find nothing
      let m := m.touch p (strchrReads (m.value p).s (src + 2) rightBrace)
      match strchr (m.value p).s (src + 2) rightBrace with
      | some stop =>
        (expandReference item call p src stop m).bind (expandLoop item call p n (stop + 1) false)
      | none => expandLoop item call p n (src + 1) false (m.append p [dollar, c])
    else if c = dollar then expandLoop item call p n (src + 1) false (m.append p [c])
    else expandLoop item call p n (src + 1) false (m.append p [dollar, c])

/-- `parser_value_expand`, at most `d` calls deep. NULL is `none`. -/
def expandCall (item : ItemSection) : ℕ → Memory → ValuePtr → Option (Option CString × Memory)
  | 0, _, _ => none
  | d + 1, m, p =>
    if (m.value p).expanding then some (none, m)
    else
      let m := m.set p { m.value p with expanded := .reset, expanding := true }
      (expandLoop item (expandCall item d) p ((m.value p).s.length + 1) 0 false m).map fun m =>
        let m := m.set p { m.value p with expanding := false }
        (some (cstr (m.value p).expanded.s), m)

/-! ## Sections -/

/-- The memory of a value. -/
def ItemValue.memory (value : ItemValue) : ValueMem :=
  ⟨value.s.bytes, value.expanded, value.expanding⟩

/-- The memory of the values of a section. -/
def ItemSection.memory (item : ItemSection) : Memory where
  value p := ((item.keys.item p.1).valuesList[p.2]?.map ItemValue.memory).getD ⟨[], .reset, false⟩
  touched := []

/-- The values of a key with other memory. -/
def ItemKey.store (key : ItemKey) (value : ℕ → ValueMem) : ItemKey :=
  { key with
    valuesList := key.valuesList.mapIdx fun i v =>
      { v with
        s := cstr (value i).s
        expanded := (value i).expanded
        expanding := (value i).expanding } }

/-- The section with other memory. -/
def ItemSection.store (item : ItemSection) (m : Memory) : ItemSection :=
  { item with
    keys := { item.keys with
      item := fun k => (item.keys.item k).store fun i => m.value (k, i) } }

/-- `parser_value_expand`, called from outside: the string, and the section afterwards. -/
def parserValueExpand (d : ℕ) (item : ItemSection) (p : ValuePtr) :
    Option (Option CString × ItemSection) :=
  (expandCall item d item.memory p).map fun r => (r.1, item.store r.2)

/-- The positions of raw strings that `parser_value_expand` reads or writes. -/
def touchedPositions (d : ℕ) (item : ItemSection) (p : ValuePtr) : List (ValuePtr × ℕ) :=
  ((expandCall item d item.memory p).map fun r => r.2.touched).getD []

/-- The values of a section. -/
def ItemSection.values (item : ItemSection) : List ValuePtr :=
  item.keys.queue.flatMap fun k =>
    (List.range (item.keys.item k).valuesList.length).map fun i => (k, i)

/-- `parser_get`. The value is given by its section, and by its key and its place. -/
def parserGet (sectionName key : CString) (n : Int) (expand : Bool) (parser : ParserContext) :
    Option (Option (ℕ × ValuePtr) × ParserContext) :=
  match parserSectionGet sectionName parser with
  | none => some (none, parser)
  | some p =>
    let item := parser.sections.item p
    match parserKeyGet key item with
    | none => some (none, parser)
    | some k =>
      match parserValueGet n (item.keys.item k) with
      | none => some (none, parser)
      | some i =>
        if expand then
          (parserValueExpand (item.values.length + 1) item (k, i)).map fun r =>
            (some (p, k, i), { parser with sections := parser.sections.modify p fun _ => r.2 })
        else some (some (p, k, i), parser)

end Config
end Campagnol
