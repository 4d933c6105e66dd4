import Hftrs.Library.Traverse
import Hftrs.Tui.SymbolCache

/-! The window of the symbol list shows the selection. -/
namespace Hftrs.Tui

open Hftrs.Library Hftrs.Itch5 Hftrs.Orderbook Hftrs.App

variable {R L : Type} [IterRegistry R] [ListState L] {profile : Profile} {app : App L}

/-! ### Selection -/

theorem entry_of_lt {symbols : List (Nat × Nat)} {i : Nat} (inside : i < symbols.length) :
    ∃ locate symbol, symbols[i]? = some (locate, symbol) :=
  ⟨symbols[i].1, symbols[i].2, List.getElem?_eq_getElem inside⟩

/-- The first row with a locate is found when there is one. -/
theorem position_spec {symbols : List (Nat × Nat)} (locate : Nat) (rows : List Nat)
    (below : ∀ i ∈ rows, i < symbols.length) :
    ∃ found, App.position symbols locate rows = some found ∧
      (found = none → ∀ i ∈ rows, ∀ symbol, symbols[i]? ≠ some (locate, symbol)) ∧
      ∀ k, found = some k →
        ∃ i symbol, rows[k]? = some i ∧ symbols[i]? = some (locate, symbol) := by
  induction rows with
  | nil => exact ⟨none, rfl, by simp, by simp⟩
  | cons i rows ih =>
    obtain ⟨found, searched, absent, present⟩ := ih fun j member => below j (by simp [member])
    obtain ⟨l, symbol, stored⟩ := entry_of_lt (below i (by simp))
    simp only [App.position, stored, Option.bind_eq_bind, Option.bind_some]
    by_cases same : l = locate
    · subst same
      refine ⟨some 0, if_pos rfl, by simp, ?_⟩
      intro k first
      cases first
      exact ⟨i, symbol, rfl, stored⟩
    · refine ⟨found.map (· + 1), ?_, ?_, ?_⟩
      · simp only [if_neg same, searched, Option.bind_some, Option.pure_def]
      · intro none j member symbol'
        rcases List.mem_cons.mp member with rfl | later
        · rw [stored]
          rintro equal
          cases equal
          exact same rfl
        · exact absent (Option.map_eq_none_iff.mp none) j later symbol'
      · intro k shifted
        obtain ⟨k, first, rfl⟩ := Option.map_eq_some_iff.mp shifted
        exact present k first

/-- A row is selected when there is one, by its locate, and the selected locate when it is shown. -/
structure Chosen (app : App L) (selected selectedLocate : Option Nat) : Prop where
  row : app.filtered ≠ [] → ∃ s i locate symbol, selected = some s ∧ app.filtered[s]? = some i ∧
    app.symbols[i]? = some (locate, symbol) ∧ selectedLocate = some locate
  inside : ∀ s, selected = some s → s < app.filtered.length
  kept : ∀ locate, app.selectedLocate = some locate →
    (∃ i ∈ app.filtered, ∃ symbol, app.symbols[i]? = some (locate, symbol)) →
      selectedLocate = some locate

omit [ListState L] in
theorem locateAt_some {s : Nat} (below : ∀ i ∈ app.filtered, i < app.symbols.length)
    (inside : s < app.filtered.length) :
    ∃ i locate symbol, app.filtered[s]? = some i ∧ app.symbols[i]? = some (locate, symbol) ∧
      app.locateAt s = some (some locate) := by
  have found := List.getElem?_eq_getElem inside
  obtain ⟨locate, symbol, stored⟩ := entry_of_lt (below _ (List.getElem_mem inside))
  refine ⟨_, locate, symbol, found, stored, ?_⟩
  simp only [App.locateAt, found, stored, Option.map_some]

omit [ListState L] in
/-- The row of the selected locate is found when it is shown. -/
theorem selectedRow_spec (below : ∀ i ∈ app.filtered, i < app.symbols.length) :
    ∃ found, app.selectedRow = some found ∧
      (found = none → ∀ locate, app.selectedLocate = some locate →
        ∀ i ∈ app.filtered, ∀ symbol, app.symbols[i]? ≠ some (locate, symbol)) ∧
      ∀ k, found = some k → k < app.filtered.length ∧
        app.locateAt k = some app.selectedLocate := by
  unfold App.selectedRow
  cases app.selectedLocate with
  | none => exact ⟨none, rfl, by simp, by simp⟩
  | some locate =>
    obtain ⟨found, searched, absent, present⟩ := position_spec locate app.filtered below
    refine ⟨found, searched, fun none l equal => ?_, fun k first => ?_⟩
    · cases equal
      exact absent none
    · obtain ⟨i, symbol, row, stored⟩ := present k first
      refine ⟨(List.getElem?_eq_some_iff.mp row).1, ?_⟩
      simp only [App.locateAt, row, stored, Option.map_some]

/-- Selecting does not panic. -/
theorem reconcile_spec (below : ∀ i ∈ app.filtered, i < app.symbols.length) :
    ∃ selected selectedLocate,
      app.reconcile = some
        { app with listState := ListState.select app.listState selected, selectedLocate } ∧
      Chosen app selected selectedLocate := by
  obtain ⟨found, searched, missing, present⟩ := selectedRow_spec below
  -- a row that is selected has its locate selected
  have row {s : Nat} {selectedLocate : Option Nat} (inside : s < app.filtered.length)
      (located : app.locateAt s = some selectedLocate) :
      ∃ t i locate symbol, some s = some t ∧ app.filtered[t]? = some i ∧
        app.symbols[i]? = some (locate, symbol) ∧ selectedLocate = some locate := by
    obtain ⟨i, locate, symbol, listed, stored, equal⟩ := locateAt_some below inside
    rw [located, Option.some.injEq] at equal
    exact ⟨s, i, locate, symbol, rfl, listed, stored, equal⟩
  simp only [App.reconcile, searched, Option.bind_eq_bind, Option.bind_some]
  cases found with
  | some k =>
    obtain ⟨inside, located⟩ := present k rfl
    refine ⟨some k, app.selectedLocate, ?_, fun _ => row inside located, fun s equal => ?_,
      fun _ same _ => same⟩
    · simp only [Option.some_or, located, Option.bind_some, Option.pure_def]
    · cases equal
      exact inside
  | none =>
    cases filtered : app.filtered with
    | nil =>
      refine ⟨none, none, by simp, fun nonempty => absurd filtered nonempty, by simp, ?_⟩
      rintro locate _ ⟨i, member, _⟩
      rw [filtered] at member
      cases member
    | cons i rows =>
      have inside : 0 < app.filtered.length := by rw [filtered]; exact Nat.succ_pos _
      obtain ⟨_, locate, _, _, _, located⟩ := locateAt_some below inside
      refine ⟨some 0, some locate, ?_, fun _ => row inside located, fun s equal => ?_, ?_⟩
      · simp [located]
      · cases equal
        exact inside
      · rintro l same ⟨j, member, symbol, stored⟩
        exact absurd stored (missing rfl l same j member symbol)

/-! ### The window -/

/-- Where the sum of offset and height wraps, the list is shorter than the height and starts at its
first row. -/
theorem scroll_wraps {height total s offset : Nat} (few : total ≤ 2 ^ 16) (last : s < total)
    (before : ¬s < offset) (wraps : 2 ^ 64 ≤ offset + height) :
    App.scroll .release height total (some s) offset = some 0 := by
  have positive : 0 < height := by omega
  have short : total - height = 0 := by omega
  have high : ¬height ≤ s + 1 := by omega
  have next : Profile.release.add 64 s 1 = some (s + 1) := Profile.add_eq _ (by omega)
  obtain ⟨bottom, summed⟩ :=
    (Profile.release.add_isSome_iff 64 offset height).mpr fun debug => by cases debug
  by_cases behind : s ≥ bottom
  · simp [App.scroll, before, positive, summed, short, behind, next, Profile.sub, high]
  · simp [App.scroll, before, positive, summed, short, behind]

/-- The offset brings a selected row into view. A height near the end of its type overflows in the
debug profile. -/
theorem scroll_spec {height total : Nat} {selected : Option Nat} (offset : Nat)
    (few : total ≤ 2 ^ 16) (inside : ∀ s, selected = some s → s < total)
    (fits : profile = .debug → height ≤ 2 ^ 64 - 2 ^ 16) :
    ∃ offset', App.scroll profile height total selected offset = some offset' ∧
      offset' ≤ total - height ∧
      ∀ s, selected = some s → 0 < height → offset' ≤ s ∧ s < offset' + height := by
  cases selected with
  | none => exact ⟨min offset (total - height), rfl, Nat.min_le_right _ _, by simp⟩
  | some s =>
    have last := inside s rfl
    -- it is enough that the offset before the last clamp has the row in view
    have clamped (raw : Nat)
        (scrolled : App.scroll profile height total (some s) offset =
          some (min raw (total - height)))
        (view : 0 < height → raw ≤ s ∧ s < raw + height) :
        ∃ offset', App.scroll profile height total (some s) offset = some offset' ∧
          offset' ≤ total - height ∧
          ∀ t, some s = some t → 0 < height → offset' ≤ t ∧ t < offset' + height := by
      refine ⟨_, scrolled, Nat.min_le_right _ _, fun t equal positive => ?_⟩
      cases equal
      have shown := view positive
      omega
    by_cases before : s < offset
    · exact clamped s (by simp [App.scroll, before]) (by omega)
    by_cases positive : 0 < height
    · by_cases sum : offset + height < 2 ^ 64
      · have bottom : profile.add 64 offset height = some (offset + height) := profile.add_eq sum
        have next : profile.add 64 s 1 = some (s + 1) := profile.add_eq (by omega)
        by_cases behind : s ≥ offset + height
        · have back : profile.sub 64 (s + 1) height = some (s + 1 - height) :=
            profile.sub_eq (by omega)
          exact clamped (s + 1 - height)
            (by simp [App.scroll, before, positive, bottom, behind, next, back]) (by omega)
        · exact clamped offset (by simp [App.scroll, before, positive, bottom, behind])
            (by omega)
      · cases profile with
        | debug =>
          have bound := fits rfl
          omega
        | release =>
          refine ⟨0, scroll_wraps few last before (Nat.le_of_not_lt sum), Nat.zero_le _, ?_⟩
          intro t equal _
          cases equal
          omega
    · exact clamped offset (by simp [App.scroll, before, positive])
        fun contra => absurd contra positive

theorem slice_eq {α : Type} {l : List α} {start stop : Nat} (low : start ≤ stop)
    (high : stop ≤ l.length) : App.slice l start stop = some ((l.drop start).take (stop - start)) :=
  if_pos ⟨low, high⟩

/-- The row of an index. -/
def App.rowAt (registry : R) (app : App L) (i : Nat) : Option VisibleRow :=
  (app.symbols[i]?).map fun (locate, symbol) => App.visibleRow registry locate symbol

/-- Clipping does not panic, and shows the rows from the offset on with the selection among them. -/
theorem clip_spec (app : App L) (registry : R)
    (below : ∀ i ∈ app.filtered, i < app.symbols.length)
    (few : app.filtered.length ≤ 2 ^ 16)
    (inside : ∀ s, ListState.selected app.listState = some s → s < app.filtered.length)
    (fits : profile = .debug → app.viewport.listHeight ≤ 2 ^ 64 - 2 ^ 16) :
    ∃ offset visibleRows,
      app.clip profile registry = some
        { app with listState := ListState.setOffset app.listState offset, visibleRows } ∧
      visibleRows.map some =
        ((app.filtered.drop offset).take app.viewport.listHeight).map (app.rowAt registry) ∧
      visibleRows.length = min app.viewport.listHeight app.filtered.length ∧
      ∀ s, ListState.selected app.listState = some s → 0 < app.viewport.listHeight →
        offset ≤ s ∧ s < offset + app.viewport.listHeight := by
  obtain ⟨offset, scrolled, end_, view⟩ :=
    scroll_spec (ListState.offset app.listState) few inside fits
  have stop : profile.add 64 offset
      (min (app.filtered.length - offset) app.viewport.listHeight) =
        some (offset + min (app.filtered.length - offset) app.viewport.listHeight) :=
    profile.add_eq (by omega)
  have rows : App.slice app.filtered offset
      (offset + min (app.filtered.length - offset) app.viewport.listHeight) =
        some ((app.filtered.drop offset).take app.viewport.listHeight) := by
    rw [slice_eq (Nat.le_add_right _ _) (by omega), Option.some.injEq, List.take_eq_take_iff,
      List.length_drop]
    omega
  obtain ⟨visibleRows, resolved, equal⟩ := mapM_some (f := app.rowAt registry)
    (l := (app.filtered.drop offset).take app.viewport.listHeight) fun i member => by
      have listed := List.mem_of_mem_drop (List.mem_of_mem_take member)
      rw [App.rowAt, Option.isSome_map, List.getElem?_eq_getElem (below i listed)]
      rfl
  refine ⟨offset, visibleRows, ?_, equal, ?_, view⟩
  · have resolved' : ((app.filtered.drop offset).take app.viewport.listHeight).mapM (fun i =>
        (app.symbols[i]?).map fun (locate, symbol) => App.visibleRow registry locate symbol) =
          some visibleRows := resolved
    simp only [App.clip, scrolled, stop, rows, resolved', Option.bind_eq_bind, Option.bind_some,
      Option.pure_def]
  · have length := congrArg List.length equal
    rw [List.length_map, List.length_map, List.length_take, List.length_drop] at length
    omega

/-- What a refresh leaves in the window. -/
structure Window (registry : R) (before after : App L) : Prop where
  length : after.visibleRows.length = min after.viewport.listHeight after.filtered.length
  rows : after.visibleRows.map some =
    ((after.filtered.drop (ListState.offset after.listState)).take
      after.viewport.listHeight).map (after.rowAt registry)
  -- a row is selected, by its locate, and inside the window
  selected : after.filtered ≠ [] → ∃ s i locate symbol,
    ListState.selected after.listState = some s ∧ after.filtered[s]? = some i ∧
      after.symbols[i]? = some (locate, symbol) ∧ after.selectedLocate = some locate ∧
      (0 < after.viewport.listHeight → ListState.offset after.listState ≤ s ∧
        s < ListState.offset after.listState + after.viewport.listHeight)
  kept : ∀ locate, before.selectedLocate = some locate →
    (∃ i ∈ after.filtered, ∃ symbol, after.symbols[i]? = some (locate, symbol)) →
      after.selectedLocate = some locate
  -- the row that is drawn as selected is that of the selected symbol
  drawn : ∀ s, ListState.selected after.listState = some s → 0 < after.viewport.listHeight →
    ∃ k, after.drawnSelection = some k ∧
      after.visibleRows[k]? = (after.filtered[s]?).bind (after.rowAt registry)

omit [ListState L] in
/-- The row at a place of the window is that of the list behind the offset. -/
theorem visibleRow_at {registry : R} {offset height k : Nat} {visibleRows : List VisibleRow}
    (rows : visibleRows.map some =
      ((app.filtered.drop offset).take height).map (app.rowAt registry)) (inside : k < height) :
    visibleRows[k]? = (app.filtered[offset + k]?).bind (app.rowAt registry) := by
  have at_ := congrArg (·[k]?) rows
  simp only [List.getElem?_map, List.getElem?_take_of_lt inside, List.getElem?_drop] at at_
  cases here : app.filtered[offset + k]? with
  | none =>
    rw [here] at at_
    simpa using at_
  | some i =>
    rw [here] at at_
    cases row : visibleRows[k]? with
    | none =>
      rw [row] at at_
      cases at_
    | some r =>
      rw [row] at at_
      exact Option.some.inj at_

/-- The second half of a refresh does not panic. -/
theorem window_spec (profile : Profile) (app : App L) (registry : R)
    (below : ∀ i ∈ app.filtered, i < app.symbols.length) (few : app.filtered.length ≤ 2 ^ 16)
    (fits : profile = .debug → app.viewport.listHeight ≤ 2 ^ 64 - 2 ^ 16) :
    ∃ after, ((app.reconcile.bind fun app => app.clip profile registry).map
        fun app => app.fetchDepth registry) = some after ∧
      Window registry app after ∧ Keeps app after ∧ after.viewport = app.viewport ∧
      ∀ s, ListState.selected after.listState = some s → s < app.filtered.length := by
  obtain ⟨selected, selectedLocate, reconciled, chosen⟩ := reconcile_spec below
  have selects : ListState.selected (ListState.select app.listState selected) = selected :=
    ListState.selected_select _ _
  obtain ⟨offset, visibleRows, clipped, rows, length, view⟩ := clip_spec
    { app with listState := ListState.select app.listState selected, selectedLocate } registry
    below few (fun s found => chosen.inside s (selects.symm.trans found)) fits
  rw [reconciled, Option.bind_some, clipped, Option.map_some]
  have offsets (state : L) : ListState.offset (ListState.setOffset state offset) = offset :=
    ListState.offset_setOffset _ _
  have selects' : ListState.selected
      (ListState.setOffset (ListState.select app.listState selected) offset) = selected :=
    (ListState.selected_setOffset _ _).trans selects
  refine ⟨_, rfl, ⟨length, ?_, ?_, chosen.kept, ?_⟩, ⟨rfl, rfl, rfl, rfl⟩, rfl, ?_⟩
  · simp only [App.fetchDepth, offsets]
    exact rows
  · intro nonempty
    obtain ⟨s, i, locate, symbol, equal, row, stored, located⟩ := chosen.row nonempty
    refine ⟨s, i, locate, symbol, selects'.trans equal, row, stored, located, fun positive => ?_⟩
    simp only [App.fetchDepth, offsets]
    exact view s (selects.trans equal) positive
  · intro s found positive
    have equal := selects'.symm.trans found
    obtain ⟨low, high⟩ := view s (selects.trans equal) positive
    refine ⟨s - offset, ?_, ?_⟩
    · simp only [App.drawnSelection, App.fetchDepth]
      rw [selects', equal, Option.bind_some, offsets, if_pos low]
    · have row := visibleRow_at rows (k := s - offset) (by omega)
      rwa [Nat.add_sub_cancel' low] at row
  · intro s found
    exact chosen.inside s (selects'.symm.trans found)

/-! ### Keys -/

private theorem bmod_small {x : Int} (low : 0 ≤ x) (high : x < 2 ^ 31) : x.bmod (2 ^ 32) = x := by
  rw [Int.bmod_def, Int.emod_eq_of_lt low (by omega), if_pos (by omega)]

theorem asI32_small {n : Nat} (small : n < 2 ^ 31) : asI32 n = n :=
  bmod_small (Int.natCast_nonneg n) (by exact_mod_cast small)

theorem moveTo_isSome (below : ∀ i ∈ app.filtered, i < app.symbols.length) (idx : Nat) :
    (app.moveTo idx).isSome := by
  unfold App.moveTo
  split
  next => rfl
  next i row =>
    obtain ⟨locate, symbol, stored⟩ := entry_of_lt (below i (List.mem_of_getElem? row))
    rw [stored]
    rfl

theorem moveSelection_isSome (profile : Profile)
    (below : ∀ i ∈ app.filtered, i < app.symbols.length) (few : app.filtered.length ≤ 2 ^ 16)
    (inside : ∀ s, ListState.selected app.listState = some s → s < app.filtered.length)
    {delta : Int} (step : -10 ≤ delta ∧ delta ≤ 10) :
    (app.moveSelection profile delta).isSome := by
  unfold App.moveSelection
  split
  next => rfl
  next nonempty =>
    have positive : 0 < app.filtered.length := by
      cases filtered : app.filtered with
      | nil => simp [filtered] at nonempty
      | cons => exact Nat.succ_pos _
    have cur : (ListState.selected app.listState).getD 0 < 2 ^ 16 := by
      cases selected : ListState.selected app.listState with
      | none => decide
      | some s =>
        have := inside s selected
        simp only [Option.getD_some]
        omega
    rw [asI32_small (by omega), asI32_small (by omega)]
    have max : profile.signed 32 ((app.filtered.length : Int) - 1) =
        some ((app.filtered.length : Int) - 1) := profile.signed_eq (by omega) (by omega)
    have moved := profile.signed_eq (w := 32)
      (x := ((ListState.selected app.listState).getD 0 : Int) + delta) (by omega) (by omega)
    have ordered : (0 : Int) ≤ (app.filtered.length : Int) - 1 := by omega
    simp only [max, moved, Option.bind_eq_bind, Option.bind_some, clamp, if_pos ordered]
    exact moveTo_isSome below _

/-- A key does not panic. -/
theorem handleKey_isSome (profile : Profile) (toUppercase : Char → List Char) (key : KeyEvent)
    (below : ∀ i ∈ app.filtered, i < app.symbols.length) (few : app.filtered.length ≤ 2 ^ 16)
    (inside : ∀ s, ListState.selected app.listState = some s → s < app.filtered.length) :
    (app.handleKey profile toUppercase key).isSome := by
  unfold App.handleKey
  split
  next => rfl
  next =>
    split
    next =>
      unfold App.handleKeyNormal
      dsimp only
      split
      next => rfl
      next =>
        split
        case h_4 | h_5 | h_6 | h_7 | h_8 | h_9 =>
          rw [Option.isSome_map]
          exact moveSelection_isSome profile below few inside (by decide)
        case h_10 | h_11 =>
          rw [Option.isSome_map]
          exact moveTo_isSome below _
        case h_12 | h_13 =>
          split
          · rfl
          · rw [Option.isSome_map]
            exact moveTo_isSome below _
        all_goals rfl
    next => rfl

/-! ### Whole runs -/

/-- The height of a viewport is one that the profile can add to. -/
def Event.Fits (profile : Profile) : Event R → Prop
  | .setViewport viewport => profile = .debug → viewport.listHeight ≤ 2 ^ 64 - 2 ^ 16
  | _ => True

namespace System

variable {toUppercase : Char → List Char} {system next : System R L}

/-- The caches, with a selection inside the list and a height that the profile can add to. -/
structure Windowed (profile : Profile) (system : System R L) : Prop where
  cached : system.Cached
  few : system.app.filtered.length ≤ 2 ^ 16
  inside : ∀ s, ListState.selected system.app.listState = some s → s < system.app.filtered.length
  fits : profile = .debug → system.app.viewport.listHeight ≤ 2 ^ 64 - 2 ^ 16

omit [IterRegistry R] [ListState L] in
/-- There are at most as many filtered rows as locates. -/
theorem few_filtered {symbols : List (Nat × Nat)} {filtered : List Nat} {filter : List Char}
    (once : (symbols.map Prod.fst).Nodup) (small : ∀ entry ∈ symbols, entry.1 < 2 ^ 16)
    (matching : Matching filter symbols filtered) : filtered.length ≤ 2 ^ 16 := by
  have locates : symbols.length ≤ 2 ^ 16 := by
    have inside : symbols.map Prod.fst ⊆ List.range (2 ^ 16) := by
      intro locate member
      obtain ⟨entry, listed, rfl⟩ := List.mem_map.mp member
      exact List.mem_range.mpr (small entry listed)
    have length := (List.subperm_of_subset once inside).length_le
    rwa [List.length_map, List.length_range] at length
  have rows : filtered ⊆ List.range symbols.length :=
    fun i member => List.mem_range.mpr (matching.below i member)
  have distinct : filtered.Nodup := matching.ascending.imp Nat.ne_of_lt
  have length := (List.subperm_of_subset distinct rows).length_le
  rw [List.length_range] at length
  omega

/-- A refresh does not panic, and shows the selection. -/
theorem Windowed.refresh (windowed : system.Windowed profile) (order : IterRegistry.Order R) :
    ∃ app, system.app.refresh profile order system.handler = some app ∧
      Window system.handler.registry system.app app ∧ Windowed profile { system with app } := by
  obtain ⟨app, rebuilt, _, locate, _, viewport, equal⟩ := windowed.cached.rebuilt profile order
  have few := few_filtered rebuilt.current.once
    (fun entry member => IterRegistry.small windowed.cached.valid
      ((rebuilt.current.members entry.1 entry.2).mp member)) rebuilt.filtered
  obtain ⟨after, refreshed, window, keeps, viewport', inside⟩ :=
    window_spec profile app system.handler.registry rebuilt.filtered.below few
      fun debug => viewport ▸ windowed.fits debug
  refine ⟨after, equal.trans refreshed, ⟨window.length, window.rows, window.selected, ?_,
    window.drawn⟩, ⟨(rebuilt.cached windowed.cached).keeps keeps, ?_, ?_, ?_⟩⟩
  · exact locate ▸ window.kept
  · exact keeps.filtered ▸ few
  · exact keeps.filtered ▸ inside
  · intro debug
    simp only [viewport', viewport]
    exact windowed.fits debug

theorem Windowed.handled {app : App L} (windowed : system.Windowed profile)
    (handled : Handled system.app app) : Windowed profile { system with app } := by
  have cached := windowed.cached.keeps handled.keeps
  cases handled with
  | edited mode filter edited =>
    subst edited
    exact ⟨cached, windowed.few, windowed.inside, windowed.fits⟩
  | moved idx moved =>
    unfold App.moveTo at moved
    split at moved
    next =>
      cases moved
      exact ⟨cached, windowed.few, windowed.inside, windowed.fits⟩
    next i row =>
      obtain ⟨⟨locate, symbol⟩, _, moved⟩ := Option.bind_eq_some_iff.mp moved
      cases moved
      refine ⟨cached, windowed.few, fun s selected => ?_, windowed.fits⟩
      have equal := (ListState.selected_select _ _).symm.trans selected
      cases equal
      exact (List.getElem?_eq_some_iff.mp row).1

theorem Windowed.step (windowed : system.Windowed profile) {event : Event R}
    (fits : event.Fits profile)
    (stepped : system.step profile toUppercase event = some ((), next)) :
    next.Windowed profile := by
  cases event with
  | message env msg =>
    obtain ⟨⟨flow, handler⟩, processed, equal⟩ := Option.map_eq_some_iff.mp stepped
    cases equal
    exact ⟨windowed.cached.counts (on_counted windowed.cached.valid msg.1 msg.2 processed),
      windowed.few, windowed.inside, windowed.fits⟩
  | key key =>
    obtain ⟨⟨quits, app⟩, handled, equal⟩ := Option.map_eq_some_iff.mp stepped
    cases equal
    exact windowed.handled (handled_handleKey handled)
  | setViewport viewport =>
    cases stepped
    exact ⟨windowed.cached.keeps ⟨rfl, rfl, rfl, rfl⟩, windowed.few, windowed.inside, fits⟩
  | refresh order =>
    obtain ⟨app, refreshed, equal⟩ := Option.map_eq_some_iff.mp stepped
    cases equal
    obtain ⟨_, again, _, windowed'⟩ := windowed.refresh order
    rw [refreshed, Option.some.injEq] at again
    exact again ▸ windowed'

theorem windowed_start (symbolsToWatch : Option (List Nat)) :
    (start symbolsToWatch : System R L).Windowed profile where
  cached := cached_start symbolsToWatch
  few := Nat.zero_le _
  inside := by
    intro s selected
    have none : ListState.selected (start symbolsToWatch : System R L).app.listState = none :=
      ListState.selected_default
    rw [none] at selected
    cases selected
  fits := fun _ => Nat.zero_le _

theorem run_windowed {events : List (Event R)} {answers : List Unit}
    (windowed : system.Windowed profile) (fits : ∀ event ∈ events, event.Fits profile)
    (reached : run (System.step profile toUppercase) system events = some (answers, next)) :
    next.Windowed profile := by
  induction events generalizing system answers with
  | nil =>
    cases reached
    exact windowed
  | cons event events ih =>
    obtain ⟨_, _, middle, _, stepped, onwards⟩ := (run_cons_iff _ _ _ _ _ _).mp reached
    exact ih (windowed.step (fits event (by simp)) stepped)
      (fun later member => fits later (by simp [member])) onwards

/-- In every state keys and refreshes do not panic, and a refresh shows the selection, for any
heights in the release profile and for heights up to `2 ^ 64 - 2 ^ 16` in the debug profile. -/
theorem run_window (profile : Profile) (toUppercase : Char → List Char)
    (symbolsToWatch : Option (List Nat)) (events : List (Event R))
    (fits : ∀ event ∈ events, event.Fits profile) (system : System R L) (answers : List Unit)
    (reached : run (System.step profile toUppercase) (start symbolsToWatch) events =
      some (answers, system)) :
    (∀ key, (system.app.handleKey profile toUppercase key).isSome) ∧
    ∀ order, ∃ app, system.app.refresh profile order system.handler = some app ∧
      Window system.handler.registry system.app app := by
  have windowed := run_windowed (windowed_start symbolsToWatch) fits reached
  refine ⟨fun key => handleKey_isSome profile toUppercase key windowed.cached.below windowed.few
    windowed.inside, fun order => ?_⟩
  obtain ⟨app, refreshed, window, _⟩ := windowed.refresh order
  exact ⟨app, refreshed, window⟩

/-- Two symbols in a window of one row, with the second one selected. -/
def lastRowEvents (height : Nat) (small : height < 2 ^ 64) : List (Event HashMapRegistry) :=
  [.message quietEnv (listed 1 65), .message quietEnv (listed 2 66),
    .setViewport ⟨1, 0, by decide⟩, .refresh asStored, .key ⟨.End, false, .Press⟩,
    .refresh asStored,
    .setViewport ⟨height, 0, ⟨small, by decide⟩⟩]

/-- The state in which they end. -/
def lastRow (height : Nat) (small : height < 2 ^ 64) : Option (System HashMapRegistry Fields) :=
  (run (System.step .debug fun c => [c]) (start none) (lastRowEvents height small)).map Prod.snd

theorem run_window_last_row :
    ∃ system app, lastRow 2 (by decide) = some system ∧
      system.app.refresh .debug asStored system.handler = some app ∧
        app.listState = ⟨0, some 1⟩ ∧ Window system.handler.registry system.app app := by
  have evaluated : ((lastRow 2 (by decide)).bind fun system =>
      (system.app.refresh .debug asStored system.handler).map fun app => app.listState) =
        some ⟨0, some 1⟩ := by decide +kernel
  obtain ⟨system, reached, refreshed⟩ := Option.bind_eq_some_iff.mp evaluated
  obtain ⟨⟨answers, _⟩, ran, rfl⟩ := Option.map_eq_some_iff.mp reached
  obtain ⟨app, shown, window⟩ := (run_window .debug (fun c => [c]) none
    (lastRowEvents 2 (by decide))
    (by simp [lastRowEvents, Event.Fits]) _ answers ran).2 asStored
  rw [shown] at refreshed
  exact ⟨_, app, reached, shown, Option.some.inj refreshed, window⟩

/-- In the debug profile the sum of the offset and the largest height overflows. -/
theorem tall_viewport_panics :
    ∃ system, lastRow (2 ^ 64 - 1) (by decide) = some system ∧
      system.app.refresh .debug asStored system.handler = none := by
  have evaluated : (lastRow (2 ^ 64 - 1) (by decide)).elim false (fun system =>
      (system.app.refresh .debug asStored system.handler).isNone) = true := by decide +kernel
  cases reached : lastRow (2 ^ 64 - 1) (by decide) with
  | none =>
    rw [reached] at evaluated
    cases evaluated
  | some system =>
    rw [reached] at evaluated
    exact ⟨system, rfl, Option.isNone_iff_eq_none.mp evaluated⟩

end System

end Hftrs.Tui
