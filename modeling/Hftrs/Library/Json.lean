import Mathlib.Data.List.Basic

/-! JSON texts, over lists of characters: the grammar of a document as a parser, a compact
writer, and that the parser reads back what the writer wrote. -/
namespace Hftrs.Library

/-- A JSON value. A number is its mantissa and its power of ten; an object keeps its members in
their order. -/
inductive Json where
  | null
  | bool (b : Bool)
  | num (mantissa exponent : Int)
  | str (text : List Char)
  | arr (items : List Json)
  | obj (fields : List (List Char × Json))

namespace Json

/-! ### The grammar -/

/-- Whitespace between tokens. -/
def isWs (c : Char) : Bool := c = ' ' ∨ c = '\t' ∨ c = '\n' ∨ c = '\r'

def ws (text : List Char) : List Char := text.dropWhile isWs

def hexDigit (c : Char) : Option Nat :=
  if '0' ≤ c ∧ c ≤ '9' then some (c.toNat - '0'.toNat)
  else if 'a' ≤ c ∧ c ≤ 'f' then some (c.toNat - 'a'.toNat + 10)
  else if 'A' ≤ c ∧ c ≤ 'F' then some (c.toNat - 'A'.toNat + 10)
  else none

def hex4 : List Char → Option (Nat × List Char)
  | a :: b :: c :: d :: rest => do
    let a ← hexDigit a
    let b ← hexDigit b
    let c ← hexDigit c
    let d ← hexDigit d
    some (((a * 16 + b) * 16 + c) * 16 + d, rest)
  | _ => none

/-- The low half of a surrogate pair, with its own `\u`. -/
def lowSurrogate : List Char → Option (Nat × List Char)
  | a :: b :: rest =>
    if a = '\\' ∧ b = 'u' then do
      let (low, rest) ← hex4 rest
      if 0xDC00 ≤ low ∧ low ≤ 0xDFFF then some (low, rest) else none
    else none
  | _ => none

/-- After `\u`. A surrogate counts in a pair only. -/
def unicode (text : List Char) : Option (Char × List Char) := do
  let (code, rest) ← hex4 text
  if code < 0xD800 ∨ 0xDFFF < code then some (Char.ofNat code, rest)
  else if 0xDC00 ≤ code then none
  else do
    let (low, rest) ← lowSurrogate rest
    some (Char.ofNat (0x10000 + (code - 0xD800) * 0x400 + (low - 0xDC00)), rest)

/-- The escapes of one character. -/
def unescape (c : Char) : Option Char :=
  match c with
  | '"' => some '"'
  | '\\' => some '\\'
  | '/' => some '/'
  | 'b' => some '\x08'
  | 'f' => some '\x0c'
  | 'n' => some '\n'
  | 'r' => some '\r'
  | 't' => some '\t'
  | _ => none

/-- After a backslash. -/
def escape : List Char → Option (Char × List Char)
  | [] => none
  | c :: rest => if c = 'u' then unicode rest else (unescape c).map fun c => (c, rest)

/-- After the opening quote of a string. -/
def string : Nat → List Char → Option (List Char × List Char)
  | 0, _ => none
  | _ + 1, [] => none
  | fuel + 1, c :: rest =>
    if c = '"' then some ([], rest)
    else if c = '\\' then do
      let (c, rest) ← escape rest
      (string fuel rest).map fun (text, rest) => (c :: text, rest)
    else if c.toNat < 0x20 then none
    else (string fuel rest).map fun (text, rest) => (c :: text, rest)

/-- A whole string, at its opening quote. -/
def quoted : List Char → Option (List Char × List Char)
  | [] => none
  | c :: rest => if c = '"' then string (rest.length + 1) rest else none

/-- At least one digit. -/
def digits (text : List Char) : Option (List Char × List Char) :=
  let ds := text.takeWhile Char.isDigit
  if ds = [] then none else some (ds, text.dropWhile Char.isDigit)

/-- The integer part: no leading zeros. -/
def whole (text : List Char) : Option (List Char × List Char) := do
  let (ds, rest) ← digits text
  if ds.head? = some '0' ∧ ds ≠ ['0'] then none else some (ds, rest)

/-- An optional `.` and its digits. -/
def fraction (text : List Char) : Option (List Char × List Char) :=
  if text.head? = some '.' then digits text.tail else some ([], text)

/-- An optional minus sign. -/
def minus (text : List Char) : Bool × List Char :=
  if text.head? = some '-' then (true, text.tail) else (false, text)

def negateIf (negative : Bool) (n : Nat) : Int := if negative then -(n : Int) else n

/-- An optional `e` and its signed digits. -/
def exponent (text : List Char) : Option (Int × List Char) :=
  if text.head? = some 'e' ∨ text.head? = some 'E' then do
    let (negative, text) := if text.tail.head? = some '+' then (false, text.tail.tail)
      else minus text.tail
    let (ds, rest) ← digits text
    some (negateIf negative (Nat.ofDigitChars 10 ds 0), rest)
  else some (0, text)

def number (text : List Char) : Option (Json × List Char) := do
  let (negative, text) := minus text
  let (ds, text) ← whole text
  let (decimals, text) ← fraction text
  let (e, text) ← exponent text
  some (num (negateIf negative (Nat.ofDigitChars 10 (ds ++ decimals) 0)) (e - decimals.length),
    text)

/-- The rest of a keyword, after its first letter. -/
def keyword (letters : List Char) (json : Json) (text : List Char) : Option (Json × List Char) :=
  if letters.isPrefixOf text then some (json, text.drop letters.length) else none

/-- After an item: a comma and more of them, or the end. -/
def separator (close : Char) (text : List Char) : Option (Bool × List Char) :=
  match ws text with
  | [] => none
  | c :: rest =>
    if c = ',' then some (true, rest) else if c = close then some (false, rest) else none

mutual

/-- A value, after any whitespace. Each level of nesting and each item takes one unit of fuel. -/
def value : Nat → List Char → Option (Json × List Char)
  | 0, _ => none
  | fuel + 1, text =>
    match ws text with
    | [] => none
    | c :: rest =>
      if c = '{' then
        let rest := ws rest
        if rest.head? = some '}' then some (obj [], rest.tail)
        else (members fuel rest).map fun (fields, rest) => (obj fields, rest)
      else if c = '[' then
        let rest := ws rest
        if rest.head? = some ']' then some (arr [], rest.tail)
        else (elements fuel rest).map fun (items, rest) => (arr items, rest)
      else if c = '"' then (quoted (c :: rest)).map fun (text, rest) => (str text, rest)
      else if c = 't' then keyword ['r', 'u', 'e'] (bool true) rest
      else if c = 'f' then keyword ['a', 'l', 's', 'e'] (bool false) rest
      else if c = 'n' then keyword ['u', 'l', 'l'] null rest
      else number (c :: rest)

/-- The items of an array up to its closing bracket. There is at least one. -/
def elements : Nat → List Char → Option (List Json × List Char)
  | 0, _ => none
  | fuel + 1, text => do
    let (item, rest) ← value fuel text
    let (more, rest) ← separator ']' rest
    if more then (elements fuel rest).map fun (items, rest) => (item :: items, rest)
    else some ([item], rest)

/-- The members of an object up to its closing brace. There is at least one. -/
def members : Nat → List Char → Option (List (List Char × Json) × List Char)
  | 0, _ => none
  | fuel + 1, text => do
    let (key, rest) ← quoted (ws text)
    if (ws rest).head? = some ':' then do
      let (item, rest) ← value fuel (ws rest).tail
      let (more, rest) ← separator '}' rest
      if more then (members fuel rest).map fun (fields, rest) => ((key, item) :: fields, rest)
      else some ([(key, item)], rest)
    else none

end

/-- The value of a document: one value, with nothing but whitespace around it. -/
def parse (text : List Char) : Option Json := do
  let (json, rest) ← value (text.length + 1) text
  if ws rest = [] then some json else none

/-- Documents are UTF-8. -/
def parseBytes (bytes : ByteArray) : Option Json := do
  let text ← bytes.utf8Decode?
  parse text.toList

/-! ### Reading -/

/-- The member of a key, the first if there are several. -/
def get (key : List Char) : Json → Option Json
  | obj fields => fields.lookup key
  | _ => none

/-- The member of a key, read. -/
def field {α : Type} (key : List Char) (read : Json → Option α) (json : Json) : Option α :=
  (json.get key).bind read

def getItems : Json → Option (List Json)
  | arr items => some items
  | _ => none

def getStr : Json → Option (List Char)
  | str text => some text
  | _ => none

def getInt : Json → Option Int
  | num mantissa 0 => some mantissa
  | _ => none

def getNat (json : Json) : Option Nat :=
  json.getInt.bind fun n => if 0 ≤ n then some n.toNat else none

/-- `null` is `none`, and anything else is read. -/
def getOpt {α : Type} (read : Json → Option α) : Json → Option (Option α)
  | null => some none
  | json => (read json).map some

/-! ### Writing -/

/-- The decimal numeral of a number. -/
def natural (n : Nat) : List Char := Nat.toDigits 10 n

def integer (n : Int) : List Char :=
  if n < 0 then '-' :: natural n.natAbs else natural n.natAbs

/-- The character stands for itself in a string. -/
def Plain (c : Char) : Prop := c ≠ '"' ∧ c ≠ '\\' ∧ 0x20 ≤ c.toNat

instance (c : Char) : Decidable (Plain c) := inferInstanceAs (Decidable (_ ∧ _))

def renderChar (c : Char) : List Char :=
  if c = '"' ∨ c = '\\' then ['\\', c]
  else if c.toNat < 0x20 then
    ['\\', 'u', '0', '0', Nat.digitChar (c.toNat / 16), Nat.digitChar (c.toNat % 16)]
  else [c]

def renderStr (text : List Char) : List Char := '"' :: text.flatMap renderChar ++ ['"']

def renderNum (mantissa e : Int) : List Char :=
  integer mantissa ++ if e = 0 then [] else 'e' :: integer e

mutual

def render : Json → List Char
  | null => ['n', 'u', 'l', 'l']
  | bool true => ['t', 'r', 'u', 'e']
  | bool false => ['f', 'a', 'l', 's', 'e']
  | num mantissa e => renderNum mantissa e
  | str text => renderStr text
  | arr items => '[' :: renderItems items ++ [']']
  | obj fields => '{' :: renderFields fields ++ ['}']

def renderItems : List Json → List Char
  | [] => []
  | [item] => render item
  | item :: items => render item ++ ',' :: renderItems items

def renderFields : List (List Char × Json) → List Char
  | [] => []
  | [(key, item)] => renderStr key ++ ':' :: render item
  | (key, item) :: fields => renderStr key ++ ':' :: render item ++ ',' :: renderFields fields

end

theorem integer_natCast (n : Nat) : integer n = natural n := by
  simp [integer]

theorem render_num (n : Int) : render (num n 0) = integer n := by
  simp [render, renderNum]

theorem render_arr (items : List Json) :
    render (arr items) = '[' :: renderItems items ++ [']'] := by
  rw [render]

theorem render_obj (fields : List (List Char × Json)) :
    render (obj fields) = '{' :: renderFields fields ++ ['}'] := by
  rw [render]

theorem renderItems_cons (item next : Json) (items : List Json) :
    renderItems (item :: next :: items) = render item ++ ',' :: renderItems (next :: items) := by
  rw [renderItems]
  simp

theorem renderFields_one (key : List Char) (item : Json) :
    renderFields [(key, item)] = renderStr key ++ ':' :: render item := by
  rw [renderFields]

theorem renderFields_cons (key : List Char) (item : Json) (next : List Char × Json)
    (fields : List (List Char × Json)) :
    renderFields ((key, item) :: next :: fields) =
      renderStr key ++ ':' :: render item ++ ',' :: renderFields (next :: fields) := by
  rw [renderFields]
  simp

/-! ### Strings -/

theorem hexDigit_digitChar (n : Nat) (small : n < 16) : hexDigit n.digitChar = some n :=
  (by decide : ∀ n < 16, hexDigit n.digitChar = some n) n small

theorem ws_cons {c : Char} (solid : isWs c = false) (text : List Char) :
    ws (c :: text) = c :: text := by
  simp [ws, solid]

/-- A control character is read back from its `\u` escape. -/
theorem escape_control (c : Char) (control : c.toNat < 0x20) (rest : List Char) :
    escape ('u' :: '0' :: '0' :: Nat.digitChar (c.toNat / 16) :: Nat.digitChar (c.toNat % 16) ::
      rest) = some (c, rest) := by
  have code : (c.toNat / 16) * 16 + c.toNat % 16 = c.toNat := by omega
  have zero : hexDigit '0' = some 0 := rfl
  have low : c.toNat < 0xD800 := by omega
  simp [escape, unicode, hex4, zero, hexDigit_digitChar (c.toNat / 16) (by omega),
    hexDigit_digitChar (c.toNat % 16) (by omega), code, low]

theorem string_escape (fuel : Nat) {c : Char} {text rest : List Char}
    (escaped : escape text = some (c, rest)) :
    string (fuel + 1) ('\\' :: text) =
      (string fuel rest).map fun (text, rest) => (c :: text, rest) := by
  simp [string, escaped]

theorem string_plain (fuel : Nat) {c : Char} (plain : Plain c) (rest : List Char) :
    string (fuel + 1) (c :: rest) =
      (string fuel rest).map fun (text, rest) => (c :: text, rest) := by
  obtain ⟨quote, slash, printed⟩ := plain
  rw [string, if_neg quote, if_neg slash, if_neg (Nat.not_lt.mpr printed)]

theorem string_renderChar (fuel : Nat) (c : Char) (rest : List Char) :
    string (fuel + 1) (renderChar c ++ rest) =
      (string fuel rest).map fun (text, rest) => (c :: text, rest) := by
  unfold renderChar
  split
  next special =>
    refine string_escape fuel ?_
    rcases special with rfl | rfl <;> rfl
  next ordinary =>
    push Not at ordinary
    split
    next control => exact string_escape fuel (escape_control c control rest)
    next printed => exact string_plain fuel ⟨ordinary.1, ordinary.2, Nat.not_lt.mp printed⟩ rest

theorem renderChar_length_pos (c : Char) : 0 < (renderChar c).length := by
  unfold renderChar
  split
  · simp
  · split <;> simp

theorem string_render (text rest : List Char) (fuel : Nat) (enough : text.length < fuel) :
    string fuel (text.flatMap renderChar ++ '"' :: rest) = some (text, rest) := by
  induction text generalizing fuel with
  | nil => cases fuel with
    | zero => simp at enough
    | succ fuel => simp [string]
  | cons c text ih => cases fuel with
    | zero => simp at enough
    | succ fuel =>
      rw [List.flatMap_cons, List.append_assoc, string_renderChar,
        ih fuel (by simpa using enough)]
      rfl

theorem length_flatMap_renderChar (text : List Char) :
    text.length ≤ (text.flatMap renderChar).length := by
  induction text with
  | nil => simp
  | cons c text ih =>
    have := renderChar_length_pos c
    simp only [List.flatMap_cons, List.length_append, List.length_cons]
    omega

theorem quoted_render (text rest : List Char) :
    quoted (renderStr text ++ rest) = some (text, rest) := by
  have := length_flatMap_renderChar text
  simp only [renderStr, quoted, List.cons_append, List.append_assoc, List.nil_append, if_true]
  exact string_render text rest _ (by rw [List.length_append]; omega)

theorem ws_renderStr (text rest : List Char) :
    ws (renderStr text ++ rest) = renderStr text ++ rest := ws_cons rfl _

/-- A plain text is written as it is. -/
theorem renderStr_plain (text : List Char) (plain : ∀ c ∈ text, Plain c) :
    renderStr text = '"' :: text ++ ['"'] := by
  have same : text.flatMap renderChar = text := by
    induction text with
    | nil => rfl
    | cons c text ih =>
      obtain ⟨quote, slash, printed⟩ := plain c (by simp)
      rw [List.flatMap_cons, ih fun c member => plain c (by simp [member])]
      simp [renderChar, quote, slash, Nat.not_lt.mpr printed]
  rw [renderStr, same]

/-! ### Numbers -/

/-- A number may end here. -/
def Stops (rest : List Char) : Prop :=
  ∀ c ∈ rest.head?, c.isDigit = false ∧ c ≠ '.' ∧ c ≠ 'e' ∧ c ≠ 'E'

theorem digits_natural (n : Nat) (rest : List Char)
    (ends : ∀ c ∈ rest.head?, c.isDigit = false) :
    digits (natural n ++ rest) = some (natural n, rest) := by
  have all : ∀ c ∈ natural n, c.isDigit = true := fun c member =>
    Nat.isDigit_of_mem_toDigits (by decide) (by decide) member
  have none : rest.takeWhile Char.isDigit = [] ∧ rest.dropWhile Char.isDigit = rest := by
    cases rest with
    | nil => exact ⟨rfl, rfl⟩
    | cons c rest => simp [ends c (by simp)]
  simp only [digits, List.takeWhile_append_of_pos all, List.dropWhile_append_of_pos all,
    none.1, none.2, List.append_nil]
  rw [if_neg]
  exact Nat.toDigits_ne_nil

theorem head_natural (n : Nat) : (natural n).head? = some '0' → natural n = ['0'] := by
  induction n using Nat.strongRecOn with
  | _ n ih =>
    intro zero
    by_cases small : n < 10
    · rw [natural, Nat.toDigits_of_lt_base small] at zero ⊢
      simpa using zero
    · have big : 10 ≤ n := by omega
      rw [natural, Nat.toDigits_of_base_le (by decide) big,
        List.head?_append_of_ne_nil _ Nat.toDigits_ne_nil] at zero
      have front := ih (n / 10) (by omega) zero
      have value := Nat.ofDigitChars_ten_toDigits (n := n / 10)
      rw [natural] at front
      rw [front] at value
      simp [Nat.ofDigitChars] at value
      omega

theorem whole_natural (n : Nat) (rest : List Char)
    (ends : ∀ c ∈ rest.head?, c.isDigit = false) :
    whole (natural n ++ rest) = some (natural n, rest) := by
  have := head_natural n
  simp only [whole, digits_natural n rest ends, Option.bind_eq_bind, Option.bind_some]
  rw [if_neg]
  simpa using this

/-- A number starts with its sign or with a digit. -/
theorem natural_head (n : Nat) (rest : List Char) :
    ∃ c more, natural n ++ rest = c :: more ∧ c.isDigit = true := by
  cases shape : natural n with
  | nil => exact absurd shape Nat.toDigits_ne_nil
  | cons c more =>
    exact ⟨c, more ++ rest, rfl,
      Nat.isDigit_of_mem_toDigits (b := 10) (n := n) (by decide) (by decide)
        (by rw [natural] at shape; simp [shape])⟩

theorem minus_integer (n : Int) (rest : List Char) :
    minus (integer n ++ rest) = (decide (n < 0), natural n.natAbs ++ rest) := by
  unfold integer
  split
  next negative => simp [minus, negative]
  next positive =>
    obtain ⟨c, more, shape, digit⟩ := natural_head n.natAbs rest
    have sign : c ≠ '-' := by
      rintro rfl
      exact absurd digit (by decide)
    simp [minus, shape, sign, positive]

theorem negateIf_natAbs (n : Int) : negateIf (decide (n < 0)) n.natAbs = n := by
  unfold negateIf
  split
  next negative =>
    have := of_decide_eq_true negative
    omega
  next positive =>
    have := of_decide_eq_false (Bool.eq_false_iff.mpr positive)
    omega

theorem ofDigitChars_natural (n : Nat) : Nat.ofDigitChars 10 (natural n) 0 = n :=
  Nat.ofDigitChars_ten_toDigits

/-- The end of an exponent ends the number. -/
theorem exponent_render (e : Int) (rest : List Char) (stops : Stops rest) :
    exponent ((if e = 0 then [] else 'e' :: integer e) ++ rest) = some (e, rest) := by
  split
  next zero =>
    have no : ¬(rest.head? = some 'e' ∨ rest.head? = some 'E') := by
      rintro (letter | letter)
      · exact (stops 'e' letter).2.2.1 rfl
      · exact (stops 'E' letter).2.2.2 rfl
    rw [List.nil_append, exponent, if_neg no, zero]
  next =>
    have unsigned : (integer e ++ rest).head? ≠ some '+' := by
      unfold integer
      split
      · simp
      · obtain ⟨c, more, shape, digit⟩ := natural_head e.natAbs rest
        rw [shape]
        rintro equal
        cases equal
        exact absurd digit (by decide)
    simp only [exponent, List.cons_append, List.head?_cons, true_or, if_true, List.tail_cons,
      if_neg unsigned, minus_integer, digits_natural e.natAbs rest fun c head => (stops c head).1,
      Option.bind_eq_bind, Option.bind_some, ofDigitChars_natural, negateIf_natAbs]

theorem number_render (mantissa e : Int) (rest : List Char) (stops : Stops rest) :
    number (renderNum mantissa e ++ rest) = some (num mantissa e, rest) := by
  generalize shape : (if e = 0 then [] else 'e' :: integer e) ++ rest = tail
  have ends : ∀ c ∈ tail.head?, c.isDigit = false ∧ c ≠ '.' := by
    intro c head
    rw [← shape] at head
    split at head
    · exact ⟨(stops c head).1, (stops c head).2.1⟩
    · cases head
      exact ⟨rfl, by decide⟩
  have read : exponent tail = some (e, rest) := shape ▸ exponent_render e rest stops
  have noPoint : tail.head? ≠ some '.' := fun head => (ends '.' head).2 rfl
  have unfolded : renderNum mantissa e ++ rest = integer mantissa ++ tail := by
    rw [renderNum, List.append_assoc, shape]
  simp only [number, unfolded, minus_integer,
    whole_natural mantissa.natAbs tail fun c head => (ends c head).1,
    Option.bind_eq_bind, Option.bind_some, fraction, if_neg noPoint, read, List.append_nil,
    ofDigitChars_natural, negateIf_natAbs]
  simp

/-! ### Round trip -/

/-- How the text of a value starts. -/
theorem render_head (json : Json) (rest : List Char) :
    ∃ c more, render json ++ rest = c :: more ∧ isWs c = false ∧ c ≠ ']' := by
  have solid (c : Char) (more : List Char) (ok : (!isWs c && c != ']') = true) :
      ∃ d tail, c :: more = d :: tail ∧ isWs d = false ∧ d ≠ ']' := by
    simp only [Bool.and_eq_true, bne_iff_ne, Bool.not_eq_eq_eq_not, Bool.not_true] at ok
    exact ⟨c, more, rfl, ok.1, ok.2⟩
  cases json with
  | null => exact solid _ _ rfl
  | bool b => cases b <;> exact solid _ _ rfl
  | str text => exact solid _ _ rfl
  | arr items => exact solid _ _ rfl
  | obj fields => exact solid _ _ rfl
  | num mantissa e =>
    rw [render, renderNum, List.append_assoc, integer]
    split
    · exact solid _ _ rfl
    · obtain ⟨c, more, shape, digit⟩ := natural_head mantissa.natAbs _
      rw [shape]
      refine ⟨c, more, rfl, ?_, ?_⟩
      · simp only [isWs, decide_eq_false_iff_not]
        rintro (rfl | rfl | rfl | rfl) <;> exact absurd digit (by decide)
      · rintro rfl
        exact absurd digit (by decide)

theorem stops_comma (rest : List Char) : Stops (',' :: rest) := by
  rintro c ⟨⟩
  decide

theorem stops_bracket (rest : List Char) : Stops (']' :: rest) := by
  rintro c ⟨⟩
  decide

theorem stops_brace (rest : List Char) : Stops ('}' :: rest) := by
  rintro c ⟨⟩
  decide

/-! What one step of the parser does. -/

theorem value_arr (fuel : Nat) {c : Char} {text : List Char} (solid : isWs c = false)
    (opens : c ≠ ']') :
    value (fuel + 1) ('[' :: c :: text) =
      (elements fuel (c :: text)).map fun (items, rest) => (arr items, rest) := by
  rw [value, ws_cons rfl]
  simp [ws_cons solid, opens]

theorem value_obj (fuel : Nat) (text : List Char) :
    value (fuel + 1) ('{' :: '"' :: text) =
      (members fuel ('"' :: text)).map fun (fields, rest) => (obj fields, rest) := by
  rw [value, ws_cons rfl]
  simp [ws_cons (c := '"') rfl]

theorem value_str (fuel : Nat) (text : List Char) :
    value (fuel + 1) ('"' :: text) =
      (quoted ('"' :: text)).map fun (text, rest) => (str text, rest) := by
  rw [value, ws_cons rfl]
  simp

theorem value_num (fuel : Nat) (mantissa e : Int) (rest : List Char) (stops : Stops rest) :
    value (fuel + 1) (renderNum mantissa e ++ rest) = some (num mantissa e, rest) := by
  have read := number_render mantissa e rest stops
  have head : ∃ c more, renderNum mantissa e ++ rest = c :: more ∧
      (c = '-' ∨ c.isDigit = true) := by
    rw [renderNum, List.append_assoc, integer]
    split
    · exact ⟨_, _, rfl, .inl rfl⟩
    · obtain ⟨c, more, shape, digit⟩ := natural_head mantissa.natAbs _
      exact ⟨c, more, shape, .inr digit⟩
  obtain ⟨c, more, shape, head⟩ := head
  have other (d : Char) (no : (d != '-' && !d.isDigit) = true) : c ≠ d := by
    simp only [Bool.and_eq_true, bne_iff_ne, Bool.not_eq_eq_eq_not, Bool.not_true] at no
    rintro rfl
    rcases head with rfl | digit
    · exact no.1 rfl
    · rw [no.2] at digit
      cases digit
  have solid : isWs c = false := by
    simp [isWs, other ' ' rfl, other '\t' rfl, other '\n' rfl, other '\r' rfl]
  rw [shape] at read ⊢
  simp only [value, ws_cons solid, other '{' rfl, other '[' rfl, other '"' rfl, other 't' rfl,
    other 'f' rfl, other 'n' rfl, if_false, read]

theorem elements_step (fuel : Nat) {text after rest : List Char} {item : Json} {more : Bool}
    (read : value fuel text = some (item, after))
    (next : separator ']' after = some (more, rest)) :
    elements (fuel + 1) text =
      if more then (elements fuel rest).map fun (items, rest) => (item :: items, rest)
      else some ([item], rest) := by
  simp [elements, read, next]

theorem members_step (fuel : Nat) (key : List Char) {text after rest : List Char} {item : Json}
    {more : Bool} (read : value fuel text = some (item, after))
    (next : separator '}' after = some (more, rest)) :
    members (fuel + 1) (renderStr key ++ ':' :: text) =
      if more then (members fuel rest).map fun (fields, rest) => ((key, item) :: fields, rest)
      else some ([(key, item)], rest) := by
  simp [members, ws_renderStr, quoted_render, ws_cons (c := ':') rfl, read, next]

/-- What is written is read back with this fuel, whatever follows it. -/
structure ReadsBack (fuel : Nat) : Prop where
  values (json : Json) (rest : List Char) : (render json).length < fuel → Stops rest →
    value fuel (render json ++ rest) = some (json, rest)
  items (items : List Json) (rest : List Char) : items ≠ [] →
    (renderItems items).length + 1 < fuel →
      elements fuel (renderItems items ++ ']' :: rest) = some (items, rest)
  fields (fields : List (List Char × Json)) (rest : List Char) : fields ≠ [] →
    (renderFields fields).length + 1 < fuel →
      members fuel (renderFields fields ++ '}' :: rest) = some (fields, rest)

theorem renderItems_head (item : Json) (items : List Json) (rest : List Char) :
    ∃ c more, renderItems (item :: items) ++ ']' :: rest = c :: more ∧ isWs c = false ∧
      c ≠ ']' := by
  cases items with
  | nil => exact render_head item _
  | cons next items =>
    rw [renderItems_cons, List.append_assoc]
    exact render_head item _

theorem renderFields_head (field : List Char × Json) (fields : List (List Char × Json))
    (rest : List Char) : ∃ more, renderFields (field :: fields) ++ '}' :: rest = '"' :: more := by
  obtain ⟨key, item⟩ := field
  cases fields <;> exact ⟨_, rfl⟩

theorem ReadsBack.value {fuel : Nat} (back : ReadsBack fuel) (json : Json) (rest : List Char)
    (enough : (render json).length < fuel + 1) (stops : Stops rest) :
    value (fuel + 1) (render json ++ rest) = some (json, rest) := by
  cases json with
  | null => rfl
  | bool b => cases b <;> rfl
  | num mantissa e => exact value_num fuel mantissa e rest stops
  | str text =>
    have read := quoted_render text rest
    simp only [render, renderStr, List.cons_append] at read ⊢
    rw [value_str, read]
    rfl
  | arr items => cases items with
    | nil => rfl
    | cons item items =>
      simp only [render, List.length_append, List.length_cons, List.length_nil] at enough
      have read := back.items (item :: items) rest (by simp) (by omega)
      obtain ⟨c, more, shape, solid, opens⟩ := renderItems_head item items rest
      simp only [render, List.cons_append, List.append_assoc, List.nil_append]
      rw [shape] at read ⊢
      rw [value_arr fuel solid opens, read]
      rfl
  | obj fields => cases fields with
    | nil => rfl
    | cons field fields =>
      simp only [render, List.length_append, List.length_cons, List.length_nil] at enough
      have read := back.fields (field :: fields) rest (by simp) (by omega)
      obtain ⟨more, shape⟩ := renderFields_head field fields rest
      simp only [render, List.cons_append, List.append_assoc, List.nil_append]
      rw [shape] at read ⊢
      rw [value_obj, read]
      rfl

theorem ReadsBack.elements {fuel : Nat} (back : ReadsBack fuel) (item : Json) (items : List Json)
    (rest : List Char) (enough : (renderItems (item :: items)).length + 1 < fuel + 1) :
    elements (fuel + 1) (renderItems (item :: items) ++ ']' :: rest) =
      some (item :: items, rest) := by
  cases items with
  | nil =>
    simp only [renderItems] at enough ⊢
    rw [elements_step fuel (back.values item _ (by omega) (stops_bracket rest)) rfl]
    rfl
  | cons next items =>
    rw [renderItems_cons] at enough ⊢
    simp only [List.length_append, List.length_cons] at enough
    obtain ⟨c, more, shape, -⟩ := render_head item []
    rw [List.append_nil] at shape
    rw [List.append_assoc, List.cons_append,
      elements_step fuel (back.values item _ (by omega) (stops_comma _)) rfl, if_pos rfl,
      back.items (next :: items) rest (by simp) (by simp [shape] at enough; omega)]
    rfl

theorem ReadsBack.members {fuel : Nat} (back : ReadsBack fuel) (key : List Char) (item : Json)
    (fields : List (List Char × Json)) (rest : List Char)
    (enough : (renderFields ((key, item) :: fields)).length + 1 < fuel + 1) :
    members (fuel + 1) (renderFields ((key, item) :: fields) ++ '}' :: rest) =
      some ((key, item) :: fields, rest) := by
  cases fields with
  | nil =>
    simp only [renderFields, List.length_append, List.length_cons] at enough
    rw [renderFields, List.append_assoc, List.cons_append,
      members_step fuel key (back.values item _ (by omega) (stops_brace rest)) rfl]
    rfl
  | cons next fields =>
    rw [renderFields_cons] at enough ⊢
    simp only [List.length_append, List.length_cons] at enough
    rw [List.append_assoc, List.append_assoc, List.cons_append, List.cons_append,
      members_step fuel key (back.values item _ (by omega) (stops_comma _)) rfl, if_pos rfl,
      back.fields (next :: fields) rest (by simp) (by omega)]
    rfl

/-- By induction on the fuel, over all three kinds of texts at once. -/
theorem readsBack (fuel : Nat) : ReadsBack fuel := by
  induction fuel with
  | zero =>
    exact ⟨fun _ _ enough => (Nat.not_lt_zero _ enough).elim,
      fun _ _ _ enough => (Nat.not_lt_zero _ enough).elim,
      fun _ _ _ enough => (Nat.not_lt_zero _ enough).elim⟩
  | succ fuel back =>
    refine ⟨back.value, fun items rest some enough => ?_, fun fields rest some enough => ?_⟩
    · cases items with
      | nil => exact absurd rfl some
      | cons item items => exact back.elements item items rest enough
    · cases fields with
      | nil => exact absurd rfl some
      | cons field fields => exact back.members field.1 field.2 fields rest enough

/-- The text of a value is a document. -/
theorem parse_render (json : Json) (rest : List Char) (stops : Stops rest)
    (blank : ws rest = []) : parse (render json ++ rest) = some json := by
  have read := (readsBack ((render json ++ rest).length + 1)).values json rest
    (by rw [List.length_append]; omega) stops
  rw [parse, read]
  simp [blank]

theorem parseBytes_ofList (text : List Char) :
    parseBytes (String.ofList text).toByteArray = parse text := by
  simp [parseBytes, String.toByteArray_ofList, List.utf8Decode?_utf8Encode]

/-! ### What was read -/

theorem elements_eq_some (fuel : Nat) (text : List Char) (r : List Json × List Char) :
    elements (fuel + 1) text = some r ↔
      ∃ item after more tail, value fuel text = some (item, after) ∧
        separator ']' after = some (more, tail) ∧
        if more then ∃ items rest, elements fuel tail = some (items, rest) ∧
          r = (item :: items, rest)
        else r = ([item], tail) := by
  simp only [elements, Option.bind_eq_bind, Option.bind_eq_some_iff]
  constructor
  · rintro ⟨⟨item, after⟩, first, ⟨more, tail⟩, next, read⟩
    refine ⟨item, after, more, tail, first, next, ?_⟩
    cases more with
    | false => exact (Option.some.inj read).symm
    | true =>
      obtain ⟨⟨items, rest⟩, inner, equal⟩ := Option.map_eq_some_iff.mp read
      exact ⟨items, rest, inner, equal.symm⟩
  · rintro ⟨item, after, more, tail, first, next, read⟩
    refine ⟨(item, after), first, (more, tail), next, ?_⟩
    cases more with
    | false => exact congrArg some read.symm
    | true =>
      obtain ⟨items, rest, inner, rfl⟩ := read
      exact Option.map_eq_some_iff.mpr ⟨_, inner, rfl⟩

theorem members_eq_some (fuel : Nat) (text : List Char)
    (r : List (List Char × Json) × List Char) :
    members (fuel + 1) text = some r ↔
      ∃ key colon item after more tail, quoted (ws text) = some (key, colon) ∧
        (ws colon).head? = some ':' ∧ value fuel (ws colon).tail = some (item, after) ∧
        separator '}' after = some (more, tail) ∧
        if more then ∃ fields rest, members fuel tail = some (fields, rest) ∧
          r = ((key, item) :: fields, rest)
        else r = ([(key, item)], tail) := by
  simp only [members, Option.bind_eq_bind, Option.bind_eq_some_iff, Option.ite_none_right_eq_some]
  constructor
  · rintro ⟨⟨key, colon⟩, named, is, ⟨item, after⟩, first, ⟨more, tail⟩, next, read⟩
    refine ⟨key, colon, item, after, more, tail, named, is, first, next, ?_⟩
    cases more with
    | false => exact (Option.some.inj read).symm
    | true =>
      obtain ⟨⟨fields, rest⟩, inner, equal⟩ := Option.map_eq_some_iff.mp read
      exact ⟨fields, rest, inner, equal.symm⟩
  · rintro ⟨key, colon, item, after, more, tail, named, is, first, next, read⟩
    refine ⟨(key, colon), named, is, (item, after), first, (more, tail), next, ?_⟩
    cases more with
    | false => exact congrArg some read.symm
    | true =>
      obtain ⟨fields, rest, inner, rfl⟩ := read
      exact Option.map_eq_some_iff.mpr ⟨_, inner, rfl⟩

/-- More fuel reads the same. -/
theorem more_fuel (fuel : Nat) :
    (∀ text r, value fuel text = some r → value (fuel + 1) text = some r) ∧
    (∀ text r, elements fuel text = some r → elements (fuel + 1) text = some r) ∧
    (∀ text r, members fuel text = some r → members (fuel + 1) text = some r) := by
  induction fuel with
  | zero =>
    refine ⟨fun text r read => ?_, fun text r read => ?_, fun text r read => ?_⟩
    · simp [value] at read
    · simp [elements] at read
    · simp [members] at read
  | succ fuel ih =>
    obtain ⟨values, arrays, objects⟩ := ih
    refine ⟨?_, ?_, ?_⟩
    · intro text r read
      rw [value] at read ⊢
      cases shape : ws text with
      | nil => simp [shape] at read
      | cons c rest =>
        simp only [shape] at read ⊢
        by_cases brace : c = '{'
        · simp only [if_pos brace] at read ⊢
          by_cases empty : (ws rest).head? = some '}'
          · simpa [empty] using read
          · simp only [if_neg empty] at read ⊢
            obtain ⟨x, inner, rfl⟩ := Option.map_eq_some_iff.mp read
            rw [objects _ _ inner]
            rfl
        · simp only [if_neg brace] at read ⊢
          by_cases bracket : c = '['
          · simp only [if_pos bracket] at read ⊢
            by_cases empty : (ws rest).head? = some ']'
            · simpa [empty] using read
            · simp only [if_neg empty] at read ⊢
              obtain ⟨x, inner, rfl⟩ := Option.map_eq_some_iff.mp read
              rw [arrays _ _ inner]
              rfl
          · simpa only [if_neg bracket] using read
    · intro text r read
      rw [elements_eq_some] at read ⊢
      obtain ⟨item, after, more, tail, first, next, read⟩ := read
      refine ⟨item, after, more, tail, values _ _ first, next, ?_⟩
      cases more with
      | false => exact read
      | true =>
        obtain ⟨items, rest, inner, equal⟩ := read
        exact ⟨items, rest, arrays _ _ inner, equal⟩
    · intro text r read
      rw [members_eq_some] at read ⊢
      obtain ⟨key, colon, item, after, more, tail, named, is, first, next, read⟩ := read
      refine ⟨key, colon, item, after, more, tail, named, is, values _ _ first, next, ?_⟩
      cases more with
      | false => exact read
      | true =>
        obtain ⟨fields, rest, inner, equal⟩ := read
        exact ⟨fields, rest, objects _ _ inner, equal⟩

theorem value_le {fuel fuel' : Nat} (le : fuel ≤ fuel') {text : List Char} {r : Json × List Char}
    (read : value fuel text = some r) : value fuel' text = some r := by
  induction le with
  | refl => exact read
  | step _ ih => exact (more_fuel _).1 text r ih

/-- Where a written value stands, no other value is read. -/
theorem value_exact {fuel : Nat} {json item : Json} {rest after : List Char} (stops : Stops rest)
    (read : value fuel (render json ++ rest) = some (item, after)) :
    item = json ∧ after = rest := by
  have written := (readsBack ((render json).length + 1)).values json rest (by omega) stops
  have both := (value_le (Nat.le_max_left fuel ((render json).length + 1)) read).symm.trans
    (value_le (Nat.le_max_right fuel ((render json).length + 1)) written)
  simpa using both

theorem obj_read {fuel : Nat} {key text rest : List Char} {json : Json}
    (read : value fuel ('{' :: (renderStr key ++ text)) = some (json, rest)) :
    ∃ fuel fields, members fuel (renderStr key ++ text) = some (fields, rest) ∧
      json = obj fields := by
  cases fuel with
  | zero => simp [value] at read
  | succ fuel =>
    obtain ⟨⟨fields, _⟩, inner, equal⟩ :=
      Option.map_eq_some_iff.mp ((value_obj fuel _).symm.trans read)
    cases equal
    exact ⟨fuel, fields, inner, rfl⟩

theorem arr_read {fuel : Nat} {c : Char} {text more rest : List Char} {json : Json}
    (head : text = c :: more) (solid : isWs c = false) (opens : c ≠ ']')
    (read : value fuel ('[' :: text) = some (json, rest)) :
    ∃ fuel items, elements fuel text = some (items, rest) ∧ json = arr items := by
  subst head
  cases fuel with
  | zero => simp [value] at read
  | succ fuel =>
    obtain ⟨⟨items, _⟩, inner, equal⟩ :=
      Option.map_eq_some_iff.mp ((value_arr fuel solid opens).symm.trans read)
    cases equal
    exact ⟨fuel, items, inner, rfl⟩

theorem str_read {fuel : Nat} {text rest : List Char} {json : Json}
    (read : value fuel ('"' :: text) = some (json, rest)) :
    ∃ t, quoted ('"' :: text) = some (t, rest) ∧ json = str t := by
  cases fuel with
  | zero => simp [value] at read
  | succ fuel =>
    obtain ⟨⟨t, _⟩, inner, equal⟩ :=
      Option.map_eq_some_iff.mp ((value_str fuel text).symm.trans read)
    cases equal
    exact ⟨t, inner, rfl⟩

/-- There is a first item, and the others are read behind its comma. -/
theorem elements_read {fuel : Nat} {text rest : List Char} {items : List Json}
    (read : elements fuel text = some (items, rest)) :
    ∃ fuel item after others, value fuel text = some (item, after) ∧ items = item :: others ∧
      ∀ behind, after = ',' :: behind → elements fuel behind = some (others, rest) := by
  cases fuel with
  | zero => simp [elements] at read
  | succ fuel =>
    obtain ⟨item, after, more, tail, first, next, shape⟩ := (elements_eq_some _ _ _).mp read
    cases more with
    | false =>
      cases shape
      refine ⟨fuel, item, after, [], first, rfl, ?_⟩
      rintro behind rfl
      cases next
    | true =>
      obtain ⟨others, rest', inner, equal⟩ := shape
      cases equal
      refine ⟨fuel, item, after, others, first, rfl, ?_⟩
      rintro behind rfl
      cases next
      exact inner

/-- The value of a written key is read first, and the other members behind its comma. -/
theorem members_read {fuel : Nat} {key text rest : List Char} {fields : List (List Char × Json)}
    (read : members fuel (renderStr key ++ ':' :: text) = some (fields, rest)) :
    ∃ fuel item after others, value fuel text = some (item, after) ∧
      fields = (key, item) :: others ∧
      ∀ behind, after = ',' :: behind → members fuel behind = some (others, rest) := by
  cases fuel with
  | zero => simp [members] at read
  | succ fuel =>
    obtain ⟨key', colon, item, after, more, tail, named, -, first, next, shape⟩ :=
      (members_eq_some _ _ _).mp read
    rw [ws_renderStr, quoted_render] at named
    cases named
    cases more with
    | false =>
      cases shape
      refine ⟨fuel, item, after, [], first, rfl, ?_⟩
      rintro behind rfl
      cases next
    | true =>
      obtain ⟨others, rest', inner, equal⟩ := shape
      cases equal
      refine ⟨fuel, item, after, others, first, rfl, ?_⟩
      rintro behind rfl
      cases next
      exact inner

/-- A written member is read as it was, and the others after it. -/
theorem members_written {fuel : Nat} {key text rest : List Char} {json : Json}
    {fields : List (List Char × Json)}
    (read : members fuel (renderStr key ++ ':' :: (render json ++ ',' :: text)) =
      some (fields, rest)) :
    ∃ fuel others, members fuel text = some (others, rest) ∧ fields = (key, json) :: others := by
  obtain ⟨fuel, item, after, others, first, equal, next⟩ := members_read read
  obtain ⟨rfl, rfl⟩ := value_exact (stops_comma text) first
  exact ⟨fuel, others, next text rfl, equal⟩

/-! ### Texts quoted as they are -/

theorem hex4_eq_some {text rest : List Char} {n : Nat} (read : hex4 text = some (n, rest)) :
    ∃ a b c d, text = a :: b :: c :: d :: rest ∧ (hexDigit a).isSome ∧ (hexDigit b).isSome ∧
      (hexDigit c).isSome ∧ (hexDigit d).isSome := by
  unfold hex4 at read
  split at read
  next a b c d tail =>
    simp only [Option.bind_eq_bind, Option.bind_eq_some_iff] at read
    obtain ⟨_, ha, _, hb, _, hc, _, hd, equal⟩ := read
    cases equal
    exact ⟨a, b, c, d, rfl, by simp [ha], by simp [hb], by simp [hc], by simp [hd]⟩
  next => cases read

/-- A reader that takes no quote stays within a text before a quote. -/
theorem within {text tail taken rest : List Char} (split : text ++ '"' :: tail = taken ++ rest)
    (noQuote : '"' ∉ taken) : ∃ left, text = taken ++ left ∧ rest = left ++ '"' :: tail := by
  rcases List.append_eq_append_iff.mp split with ⟨left, equal, shape⟩ | ⟨left, equal, shape⟩
  · cases left with
    | nil => exact ⟨[], by simpa using equal.symm, by simpa using shape.symm⟩
    | cons c left =>
      simp only [List.cons_append, List.cons.injEq] at shape
      rw [equal, ← shape.1] at noQuote
      simp at noQuote
  · exact ⟨left, equal, shape⟩

theorem unicode_eq_some {text rest : List Char} {c : Char}
    (read : unicode text = some (c, rest)) :
    ∃ taken, text = taken ++ rest ∧ taken ≠ [] ∧ '"' ∉ taken := by
  have noQuote (d : Char) (hex : (hexDigit d).isSome = true) : '"' ≠ d := by
    rintro rfl
    exact absurd hex (by decide)
  simp only [unicode, Option.bind_eq_bind, Option.bind_eq_some_iff] at read
  obtain ⟨⟨code, after⟩, high, read⟩ := read
  obtain ⟨d₁, d₂, d₃, d₄, rfl, h₁, h₂, h₃, h₄⟩ := hex4_eq_some high
  split at read
  · obtain ⟨-, rfl⟩ := Prod.mk.inj (Option.some.inj read)
    exact ⟨[d₁, d₂, d₃, d₄], rfl, by simp, by simp [noQuote _ h₁, noQuote _ h₂, noQuote _ h₃,
      noQuote _ h₄]⟩
  · split at read
    · cases read
    · simp only [Option.bind_eq_some_iff] at read
      obtain ⟨⟨low, after'⟩, pair, read⟩ := read
      obtain ⟨-, rfl⟩ := Prod.mk.inj (Option.some.inj read)
      unfold lowSurrogate at pair
      split at pair
      next a b more =>
        split at pair
        next mark =>
          obtain ⟨rfl, rfl⟩ := mark
          simp only [Option.bind_eq_bind, Option.bind_eq_some_iff] at pair
          obtain ⟨⟨low', after⟩, digits, pair⟩ := pair
          obtain ⟨e₁, e₂, e₃, e₄, rfl, g₁, g₂, g₃, g₄⟩ := hex4_eq_some digits
          split at pair
          · cases pair
            exact ⟨[d₁, d₂, d₃, d₄, '\\', 'u', e₁, e₂, e₃, e₄], rfl, by simp,
              by simp [noQuote _ h₁, noQuote _ h₂, noQuote _ h₃, noQuote _ h₄, noQuote _ g₁,
                noQuote _ g₂, noQuote _ g₃, noQuote _ g₄]⟩
          · cases pair
        · cases pair
      next => cases pair

/-- An escape in a text before a quote ends in the text, unless the text has only its
backslash. -/
theorem escape_quoted {text tail rest : List Char} {c : Char}
    (read : escape (text ++ '"' :: tail) = some (c, rest)) :
    (text = [] ∧ c = '"' ∧ rest = tail) ∨
      ∃ taken left, text = taken ++ left ∧ taken ≠ [] ∧ rest = left ++ '"' :: tail := by
  cases text with
  | nil =>
    cases read
    exact .inl ⟨rfl, rfl, rfl⟩
  | cons d text =>
    refine .inr ?_
    simp only [List.cons_append, escape] at read
    split at read
    · obtain ⟨taken, split, _, noQuote⟩ := unicode_eq_some read
      obtain ⟨left, equal, shape⟩ := within split noQuote
      exact ⟨d :: taken, left, by rw [equal]; rfl, by simp, shape⟩
    · obtain ⟨_, _, equal⟩ := Option.map_eq_some_iff.mp read
      cases equal
      exact ⟨[d], text, rfl, by simp, rfl⟩

/-- What is read where a text stands between quotes, nothing escaped: the text itself if it is
plain, else less than the text, or past the quote that a last backslash takes. -/
theorem string_quoted (fuel : Nat) {text tail read rest : List Char}
    (found : string fuel (text ++ '"' :: tail) = some (read, rest)) :
    ((∀ c ∈ text, Plain c) ∧ read = text ∧ rest = tail) ∨ read.length < text.length ∨
      ∃ front before after fuel, text = front ++ ['\\'] ∧ read = before ++ '"' :: after ∧
        string fuel tail = some (after, rest) := by
  induction fuel generalizing text read with
  | zero => cases found
  | succ fuel ih =>
    cases text with
    | nil =>
      cases found
      exact .inl ⟨by simp, rfl, rfl⟩
    | cons c text =>
      simp only [List.cons_append, string] at found
      split at found
      next =>
        cases found
        exact .inr (.inl (by simp))
      next quote =>
        split at found
        next slash =>
          subst slash
          simp only [Option.bind_eq_bind, Option.bind_eq_some_iff] at found
          obtain ⟨⟨d, rest'⟩, escaped, found⟩ := found
          obtain ⟨⟨more, rest''⟩, inner, equal⟩ := Option.map_eq_some_iff.mp found
          cases equal
          rcases escape_quoted escaped with ⟨rfl, rfl, rfl⟩ | ⟨taken, left, rfl, some, rfl⟩
          · exact .inr (.inr ⟨[], [], more, fuel, rfl, rfl, inner⟩)
          · have longer : 0 < taken.length := List.length_pos_of_ne_nil some
            rcases ih inner with ⟨_, rfl, _⟩ | short | ⟨front, before, after, fuel, rfl, rfl, last⟩
            · exact .inr (.inl (by simp; omega))
            · exact .inr (.inl (by simp; omega))
            · exact .inr (.inr ⟨'\\' :: taken ++ front, d :: before, after, fuel, by simp, rfl,
                last⟩)
        next slash =>
          split at found
          next => cases found
          next printed =>
            obtain ⟨⟨more, rest'⟩, inner, equal⟩ := Option.map_eq_some_iff.mp found
            cases equal
            rcases ih inner with ⟨plain, rfl, same⟩ | short |
              ⟨front, before, after, fuel, rfl, rfl, last⟩
            · refine .inl ⟨?_, rfl, same⟩
              rintro d (_ | ⟨_, member⟩)
              · exact ⟨quote, slash, Nat.not_lt.mp printed⟩
              · exact plain d member
            · exact .inr (.inl (by simpa using short))
            · exact .inr (.inr ⟨c :: front, c :: before, after, fuel, rfl, rfl, last⟩)

/-- A text quoted as it is, with a comma and a further string behind, reads as itself only if
it is plain. -/
theorem plain_of_quoted {text tail rest : List Char}
    (found : quoted ('"' :: text ++ '"' :: ',' :: '"' :: tail) = some (text, rest)) :
    ∀ c ∈ text, Plain c := by
  simp only [quoted, List.cons_append, if_true] at found
  rcases string_quoted _ found with ⟨plain, -, -⟩ | short |
    ⟨front, before, after, fuel, slash, comma, last⟩
  · exact plain
  · exact absurd short (Nat.lt_irrefl _)
  · have ends : after = [','] := by
      rcases fuel with _ | _ | fuel
      · cases last
      · simp [string] at last
      · simp [string] at last
        exact last.1.symm
    have lasts := congrArg List.getLast? (slash.symm.trans comma)
    simp [ends] at lasts

end Json

end Hftrs.Library
