import Hftrs.Library.BigEndian

/-! Blocks with a two-byte big-endian length in front. -/
namespace Hftrs.Library

/-- A block: the length of the body, then the body. -/
def block (body : List UInt8) : List UInt8 := encode 2 body.length ++ body

/-- The blocks of the bodies, one after the other. -/
def blocks (bodies : List (List UInt8)) : List UInt8 := (bodies.map block).flatten

/-- The first `n` elements and the rest, when there are that many. -/
def splitAtChecked {α : Type} (l : List α) (n : Nat) : Option (List α × List α) :=
  if n ≤ l.length then some (l.splitAt n) else none

/-- The body of the first block and the bytes behind it. -/
def splitBlock (bytes : List UInt8) : Option (List UInt8 × List UInt8) :=
  (splitAtChecked bytes 2).bind fun (length, rest) => splitAtChecked rest (decode length)

theorem splitAtChecked_append {α : Type} (l₁ l₂ : List α) :
    splitAtChecked (l₁ ++ l₂) l₁.length = some (l₁, l₂) := by
  rw [splitAtChecked, if_pos (by simp), List.splitAt_eq, List.take_left, List.drop_left]

theorem splitAtChecked_some {α : Type} {l l₁ l₂ : List α} {n : Nat}
    (split : splitAtChecked l n = some (l₁, l₂)) : l = l₁ ++ l₂ ∧ l₁.length = n := by
  unfold splitAtChecked at split
  split at split
  next enough =>
    rw [List.splitAt_eq] at split
    cases split
    exact ⟨(List.take_append_drop n l).symm, List.length_take_of_le enough⟩
  next => cases split

theorem splitAtChecked_none {α : Type} (l : List α) (n : Nat) :
    splitAtChecked l n = none ↔ l.length < n := by
  unfold splitAtChecked
  split <;> simp <;> omega

@[simp] theorem length_block (body : List UInt8) : (block body).length = body.length + 2 := by
  rw [block, List.length_append, length_encode, Nat.add_comm]

@[simp] theorem blocks_nil : blocks [] = [] := rfl

@[simp] theorem blocks_cons (body : List UInt8) (bodies : List (List UInt8)) :
    blocks (body :: bodies) = block body ++ blocks bodies := rfl

@[simp] theorem blocks_append (xs ys : List (List UInt8)) :
    blocks (xs ++ ys) = blocks xs ++ blocks ys := by
  rw [blocks, blocks, blocks, List.map_append, List.flatten_append]

theorem blocks_flatten (chunks : List (List (List UInt8))) :
    blocks chunks.flatten = (chunks.map blocks).flatten := by
  induction chunks with
  | nil => rfl
  | cons chunk chunks ih =>
    rw [List.flatten_cons, blocks_append, ih, List.map_cons, List.flatten_cons]

/-- A block is split off the front of what follows it. -/
theorem splitBlock_block (body rest : List UInt8) (fits : body.length < 2 ^ 16) :
    splitBlock (block body ++ rest) = some (body, rest) := by
  have prefixed := splitAtChecked_append (encode 2 body.length) (body ++ rest)
  rw [length_encode] at prefixed
  simp only [splitBlock, block, List.append_assoc, prefixed, Option.bind_some,
    decode_encode 2 _ fits]
  exact splitAtChecked_append body rest

/-- Whatever is split off is a block, and nothing is lost. -/
theorem splitBlock_some {bytes body rest : List UInt8}
    (split : splitBlock bytes = some (body, rest)) :
    bytes = block body ++ rest ∧ body.length < 2 ^ 16 := by
  obtain ⟨⟨length, tail⟩, first, second⟩ := Option.bind_eq_some_iff.mp split
  obtain ⟨rfl, two⟩ := splitAtChecked_some first
  obtain ⟨rfl, counted⟩ := splitAtChecked_some second
  -- the two bytes in front are the encoding of the number they spell
  have digits := encode_decode length
  have bound := decode_lt length
  rw [two] at digits bound
  rw [block, counted, digits, List.append_assoc]
  exact ⟨rfl, bound⟩

theorem splitBlock_length {bytes body rest : List UInt8}
    (split : splitBlock bytes = some (body, rest)) : rest.length < bytes.length := by
  obtain ⟨rfl, _⟩ := splitBlock_some split
  rw [List.length_append, length_block]
  omega

/-- The bodies of the complete blocks at the front of the bytes. -/
def splitBlocks (bytes : List UInt8) : List (List UInt8) :=
  match _found : splitBlock bytes with
  | none => []
  | some (body, rest) => body :: splitBlocks rest
  termination_by bytes.length
  decreasing_by exact splitBlock_length _found

theorem splitBlocks_none {bytes : List UInt8} (last : splitBlock bytes = none) :
    splitBlocks bytes = [] := by
  rw [splitBlocks]
  split
  next => rfl
  next found => rw [last] at found; cases found

theorem splitBlocks_some {bytes body rest : List UInt8}
    (found : splitBlock bytes = some (body, rest)) :
    splitBlocks bytes = body :: splitBlocks rest := by
  rw [splitBlocks]
  split
  next last => rw [found] at last; cases last
  next same => rw [found] at same; cases same; rfl

end Hftrs.Library
