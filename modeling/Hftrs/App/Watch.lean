import Hftrs.App.Market
import Hftrs.Library.Lockstep

/-! The watch list of the command line, and the books that are kept because of it. -/
namespace Hftrs.App

open Hftrs.Itch5 Hftrs.Library Hftrs.Orderbook Hftrs.Moldudp

/-- The symbol of a text; `none` is the panic on an empty one. -/
def parseSymbol (toUppercase : Char → List Char) (s : List Char) : Option Nat :=
  match Symbol.fromStr toUppercase (s.flatMap toUppercase) with
  | .ok symbol => some symbol
  | .error _ => none

/-- `parse_symbols` -/
def parseSymbols (toUppercase : Char → List Char) :
    Option (List (List Char)) → Option (Option (List Nat))
  | none => some none
  | some ss => (ss.mapM (parseSymbol toUppercase)).map some

/-- The bytes that are watched: the first eight of the upper case, taken twice, with blanks up to
eight. -/
def watchedBytes (toUppercase : Char → List Char) (s : List Char) : List UInt8 :=
  let upper := Symbol.utf8 ((s.flatMap toUppercase).flatMap toUppercase)
  upper.take 8 ++ List.replicate (8 - upper.length) 32

variable {toUppercase : Char → List Char} {s : List Char} {symbol : Nat}

theorem length_watchedBytes (toUppercase : Char → List Char) (s : List Char) :
    (watchedBytes toUppercase s).length = 8 := by
  simp only [watchedBytes, List.length_append, List.length_take, List.length_replicate]
  omega

/-- A symbol on the wire is the one of a text exactly if its bytes are those of the text. -/
theorem eq_parseSymbol_iff (parsed : parseSymbol toUppercase s = some symbol) {stock : Nat}
    (wire : stock < 256 ^ 8) :
    stock = symbol ↔ Symbol.bytes stock = watchedBytes toUppercase s := by
  have value : symbol = decode (watchedBytes toUppercase s) := by
    unfold parseSymbol Symbol.fromStr at parsed
    by_cases empty : (s.flatMap toUppercase).isEmpty = true
    · rw [if_pos empty] at parsed
      cases parsed
    · rw [if_neg empty] at parsed
      exact (Option.some.inj parsed).symm
  -- eight bytes and the number they spell determine each other
  rw [value, Symbol.bytes]
  constructor
  · rintro rfl
    have back := encode_decode (watchedBytes toUppercase s)
    rwa [length_watchedBytes] at back
  · intro same
    rw [← same, decode_encode 8 stock wire]

/-- The text that is watched, when it is not cut. -/
def watchedText (toUppercase : Char → List Char) (s : List Char) : List Char :=
  let upper := (s.flatMap toUppercase).flatMap toUppercase
  upper ++ List.replicate (8 - (Symbol.utf8 upper).length) ' '

theorem utf8_blanks (n : Nat) : Symbol.utf8 (List.replicate n ' ') = List.replicate n 32 := by
  induction n with
  | zero => rfl
  | succ n ih =>
    rw [List.replicate_succ, Symbol.utf8, List.flatMap_cons, ← Symbol.utf8, ih]
    rfl

/-- A text of at most eight bytes is watched as it reads. -/
theorem watched_iff_reads
    (short : (Symbol.utf8 ((s.flatMap toUppercase).flatMap toUppercase)).length ≤ 8) :
    Symbol.bytes symbol = watchedBytes toUppercase s ↔
      Symbol.asStr symbol = watchedText toUppercase s := by
  have spelled : Symbol.utf8 (watchedText toUppercase s) = watchedBytes toUppercase s := by
    rw [watchedText, Symbol.utf8, List.flatMap_append, ← Symbol.utf8, ← Symbol.utf8, utf8_blanks,
      watchedBytes, List.take_of_length_le short]
  rw [Symbol.asStr_eq_iff symbol (spelled ▸ length_watchedBytes toUppercase s), spelled]

/-- A directory entry of a watched text. -/
def Enters (toUppercase : Char → List Char) (texts : List (List Char)) (l : Nat)
    (msg : Msg .stockDirectory) : Prop :=
  msg.stockLocate = l ∧ ∃ s ∈ texts, Symbol.bytes msg.stock = watchedBytes toUppercase s

/-- The entries that register under a watch list are those of its texts. -/
theorem registers_iff_enters {texts : List (List Char)} {symbols : List Nat}
    (parsed : parseSymbols toUppercase (some texts) = some (some symbols)) (l : Nat)
    (msg : Msg .stockDirectory) :
    registers (some symbols) l ⟨.stockDirectory, msg⟩ = true ↔ Enters toUppercase texts l msg := by
  obtain ⟨symbols', mapped, equal⟩ := Option.map_eq_some_iff.mp parsed
  cases equal
  have pairs := (mapM_some_iff texts symbols).mp mapped
  have wire : msg.stock < 256 ^ 8 := msg.get_lt .stock
  have contained : msg.stock ∈ symbols ↔
      ∃ s ∈ texts, Symbol.bytes msg.stock = watchedBytes toUppercase s := by
    clear mapped parsed
    induction pairs with
    | nil => simp
    | cons here _ ih =>
      rw [List.mem_cons, List.exists_mem_cons_iff, ih, eq_parseSymbol_iff here wire]
  rw [registers, Bool.and_eq_true, decide_eq_true_eq, Option.all_some, List.contains_iff_mem,
    contained, Enters]

/-- After a smooth stream, the books that the client keeps under a watch list are those of the locates
with a directory entry whose symbol is one of the texts, in upper case, cut or padded with blanks to
eight bytes, and each is kept under the symbol of such an entry. -/
theorem watch_list_kept {R : Type} [IterRegistry R] [LawfulRegistry R] (env : Env)
    (alive : env.shutdown = false) (trySend : RetransmissionPacket → Bool)
    (toUppercase : Char → List Char) (texts : List (List Char)) (symbols : List Nat)
    (parsed : parseSymbols toUppercase (some texts) = some (some symbols))
    (datagrams : List (List UInt8)) (headed : ∀ d ∈ datagrams, (Packet.parse d).isSome)
    (smooth : Smooth R env (some symbols) (heard datagrams)) :
    ∃ state, Receiving.run env trySend datagrams
        (MessageHandler.new (some symbols) : MessageHandler R) = some state ∧
      (∀ l, (Registry.get state.handler.registry l).isSome ↔
        ∃ msg, ⟨.stockDirectory, msg⟩ ∈ heard datagrams ∧ Enters toUppercase texts l msg) ∧
      ∀ l symbol, Registry.getSymbol state.handler.registry l = some symbol →
        ∃ msg, ⟨.stockDirectory, msg⟩ ∈ heard datagrams ∧ Enters toUppercase texts l msg ∧
          msg.stock = symbol := by
  obtain ⟨state, ran, shows⟩ :=
    Receiving.run_shows (R := R) env alive trySend (some symbols) datagrams headed smooth
  have named (l : Nat) := (shows.symbols l).trans (Market.symbol_after (some symbols) _ l)
  -- what registers is an entry of the watch list
  have entered {l : Nat} {m : Message} (registered : registers (some symbols) l m = true) :
      ∃ msg, m = ⟨.stockDirectory, msg⟩ ∧ Enters toUppercase texts l msg := by
    obtain ⟨kind, msg⟩ := m
    cases kind with
    | stockDirectory => exact ⟨msg, rfl, (registers_iff_enters parsed l msg).mp registered⟩
    | _ => cases registered
  refine ⟨state, ran, fun l => ?_, fun l symbol here => ?_⟩
  · have booked : (Registry.get state.handler.registry l).isSome =
        (Registry.getSymbol state.handler.registry l).isSome := by
      rw [shows.symbols, Option.isSome_map, rel_isSome (shows.books l)]
    rw [booked, named, Option.isSome_map, List.find?_isSome]
    constructor
    · rintro ⟨m, member, registered⟩
      obtain ⟨msg, rfl, enters⟩ := entered registered
      exact ⟨msg, List.mem_reverse.mp member, enters⟩
    · rintro ⟨msg, member, enters⟩
      exact ⟨_, List.mem_reverse.mpr member, (registers_iff_enters parsed l msg).mpr enters⟩
  · rw [named] at here
    obtain ⟨m, found, rfl⟩ := Option.map_eq_some_iff.mp here
    obtain ⟨msg, rfl, enters⟩ := entered (List.find?_some found)
    exact ⟨msg, List.mem_reverse.mp (List.mem_of_find?_eq_some found), enters, rfl⟩

/-- A directory entry of `A` at locate 2. -/
def directoryOfA : Msg .stockDirectory :=
  ⟨[82, 0, 2] ++ List.replicate 8 0 ++ [65] ++ List.replicate 7 32 ++ List.replicate 20 0,
    by decide⟩

/-- A small letter on the command line watches the symbol in capitals, and no other one. -/
theorem watch_list_kept_sample :
    ∃ state, Receiving.run (loudEnv .debug) (fun _ => true)
        [Receiving.datagramOf 7 [directoryOf1, ⟨.stockDirectory, directoryOfA⟩]]
        (MessageHandler.new (some [0x4120202020202020]) : MessageHandler HashMapRegistry) =
          some state ∧
      (Registry.get state.handler.registry 2).isSome ∧
      ¬(Registry.get state.handler.registry 1).isSome := by
  have hears : heard [Receiving.datagramOf 7 [directoryOf1, ⟨.stockDirectory, directoryOfA⟩]] =
      [directoryOf1, ⟨.stockDirectory, directoryOfA⟩] := by decide +kernel
  obtain ⟨state, ran, kept, _⟩ := watch_list_kept (R := HashMapRegistry) (loudEnv .debug) rfl
    (fun _ => true) (fun c => [c.toUpper]) [['a']] [0x4120202020202020] (by decide +kernel)
    [Receiving.datagramOf 7 [directoryOf1, ⟨.stockDirectory, directoryOfA⟩]] (by decide +kernel)
    (.of_short (by rw [hears]; decide +kernel) (fun _ _ _ _ => trivial) (by rw [hears]; decide))
  have other : (Receiving.run (loudEnv .debug) (fun _ => true)
      [Receiving.datagramOf 7 [directoryOf1, ⟨.stockDirectory, directoryOfA⟩]]
      (MessageHandler.new (some [0x4120202020202020]) : MessageHandler HashMapRegistry)).map
        (fun state => (Registry.get state.handler.registry 1).isSome) = some false := by
    decide +kernel
  rw [ran] at other
  exact ⟨state, ran, (kept 2).mpr ⟨directoryOfA, by rw [hears]; simp, by decide +kernel, ['a'],
    by simp, by decide +kernel⟩, Bool.eq_false_iff.mp (Option.some.inj other)⟩

end Hftrs.App
