import Mathlib.Data.List.FinRange
import Mathlib.Logic.Equiv.Fin.Basic
import BankedStore.Lines
import BankedStore.Size

/-!
# Storage order does not show

A grid of lines is a table with one line for each set and way.  An access within it
finds or replaces the line of its own pair; any other fails and changes nothing.  A
layout gives each pair a cell of the storage, and each cell to one pair.  So grids of
one shape answer every run of accesses alike, whatever their layouts, and their
storages hold the same lines in different orders.
-/

namespace BankedStore

inductive LineAccess (α : Type) where
  | get? (set way : Nat)
  | set? (set way : Nat) (line : α)
  | get (set way : Nat)
  | set (set way : Nat) (line : α)

inductive LineAnswer (α : Type) where
  | found (line : Option α)
  | placed (done : Option Unit)
  | line (outcome : Except Fault α)
  | stored (outcome : Except Fault Unit)

def linePair? (sets ways set way : Nat) : Option (Fin sets × Fin ways) :=
  if h : set < sets ∧ way < ways then some (⟨set, h.1⟩, ⟨way, h.2⟩) else none

theorem linePair?_eq_some_iff {sets ways set way : Nat} {pair : Fin sets × Fin ways} :
    linePair? sets ways set way = some pair ↔ set = pair.1.val ∧ way = pair.2.val := by
  obtain ⟨⟨i, hi⟩, ⟨j, hj⟩⟩ := pair
  unfold linePair?
  constructor
  · intro h
    split at h
    · cases h
      exact ⟨rfl, rfl⟩
    · contradiction
  · rintro ⟨rfl, rfl⟩
    exact dif_pos ⟨hi, hj⟩

/-! ## Tables -/

abbrev LineTable (sets ways : Nat) (α : Type) := Fin sets × Fin ways → α

namespace LineTable

variable {α : Type} {sets ways : Nat}

def perform (t : LineTable sets ways α) : LineAccess α → LineAnswer α × LineTable sets ways α
  | .get? set way => (.found ((linePair? sets ways set way).map t), t)
  | .set? set way line =>
      match linePair? sets ways set way with
      | some pair => (.placed (some ()), Function.update t pair line)
      | none => (.placed none, t)
  | .get set way =>
      match linePair? sets ways set way with
      | some pair => (.line (.ok (t pair)), t)
      | none => (.line (.error (.lineOutOfRange set way sets ways)), t)
  | .set set way line =>
      match linePair? sets ways set way with
      | some pair => (.stored (.ok ()), Function.update t pair line)
      | none => (.stored (.error (.lineOutOfRange set way sets ways)), t)

def run (t : LineTable sets ways α) :
    List (LineAccess α) → List (LineAnswer α) × LineTable sets ways α
  | [] => ([], t)
  | access :: accesses =>
      let next := t.perform access
      let rest := next.2.run accesses
      (next.1 :: rest.1, rest.2)

end LineTable

namespace LineGrid

variable {α : Type}

def perform (g : LineGrid α) : LineAccess α → LineAnswer α × LineGrid α
  | .get? set way => (.found (g.get? set way), g)
  | .set? set way line =>
      match g.set? set way line with
      | some next => (.placed (some ()), next)
      | none => (.placed none, g)
  | .get set way => (.line (g.get set way), g)
  | .set set way line =>
      match g.set set way line with
      | .ok next => (.stored (.ok ()), next)
      | .error fault => (.stored (.error fault), g)

def run (g : LineGrid α) : List (LineAccess α) → List (LineAnswer α) × LineGrid α
  | [] => ([], g)
  | access :: accesses =>
      let next := g.perform access
      let rest := next.2.run accesses
      (next.1 :: rest.1, rest.2)

end LineGrid

/-! ## Cells -/

namespace Layout

def cell (layout : Layout) (sets ways : Nat) : Fin sets × Fin ways ≃ Fin (sets * ways) :=
  match layout with
  | .setMajor => finProdFinEquiv
  | .wayMajor =>
      (Equiv.prodComm _ _).trans (finProdFinEquiv.trans (finCongr (Nat.mul_comm ways sets)))

theorem cell_setMajor {sets ways : Nat} (pair : Fin sets × Fin ways) :
    (cell .setMajor sets ways pair).val = pair.1.val * ways + pair.2.val := by
  change pair.2.val + ways * pair.1.val = _
  rw [Nat.add_comm, Nat.mul_comm]

theorem cell_wayMajor {sets ways : Nat} (pair : Fin sets × Fin ways) :
    (cell .wayMajor sets ways pair).val = pair.2.val * sets + pair.1.val := by
  change pair.1.val + sets * pair.2.val = _
  rw [Nat.add_comm, Nat.mul_comm]

end Layout

namespace LineGrid

variable {α : Type} {g : LineGrid α} {sets ways : Nat}

theorem position?_eq (hsets : g.sets = sets) (hways : g.ways = ways) (set way : Nat) :
    g.position? set way =
      (linePair? sets ways set way).map fun pair => (g.layout.cell sets ways pair).val := by
  subst hsets hways
  unfold position? linePair?
  by_cases h : set < g.sets ∧ way < g.ways
  · cases hlayout : g.layout <;> simp [h, Layout.cell_setMajor, Layout.cell_wayMajor]
  · simp [h]

def countedPosition? (g : LineGrid α) (set way : Nat) : Except Fault (Option Nat) := do
  if set < g.sets ∧ way < g.ways then
    match g.layout with
    | .setMajor => some <$> do Size.add (← Size.mul set g.ways) way
    | .wayMajor => some <$> do Size.add (← Size.mul way g.sets) set
  else return none

theorem countedPosition?_eq (hfits : g.sets * g.ways < Size.limit) (set way : Nat) :
    g.countedPosition? set way = .ok (g.position? set way) := by
  unfold countedPosition? position?
  by_cases h : set < g.sets ∧ way < g.ways
  · have hcell := (g.layout.cell g.sets g.ways (⟨set, h.1⟩, ⟨way, h.2⟩)).isLt
    rw [if_pos h, if_pos h]
    cases hlayout : g.layout with
    | setMajor =>
        rw [hlayout, Layout.cell_setMajor] at hcell
        exact congrArg (some <$> ·) (Size.mul_add_eq_ok (Nat.lt_trans hcell hfits))
    | wayMajor =>
        rw [hlayout, Layout.cell_wayMajor] at hcell
        exact congrArg (some <$> ·) (Size.mul_add_eq_ok (Nat.lt_trans hcell hfits))
  · rw [if_neg h, if_neg h]
    rfl

structure Shows (g : LineGrid α) (layout : Layout) (t : LineTable sets ways α) : Prop where
  sets_eq : g.sets = sets
  ways_eq : g.ways = ways
  layout_eq : g.layout = layout
  size : g.size = sets * ways
  lines : ∀ pair, g.lines[(layout.cell sets ways pair).val]? = some (t pair)

namespace Shows

variable {layout : Layout} {t : LineTable sets ways α}

theorem position?_eq (h : g.Shows layout t) (set way : Nat) :
    g.position? set way =
      (linePair? sets ways set way).map fun pair => (layout.cell sets ways pair).val := by
  rw [LineGrid.position?_eq h.sets_eq h.ways_eq, h.layout_eq]

theorem get?_eq (h : g.Shows layout t) (set way : Nat) :
    g.get? set way = (linePair? sets ways set way).map t := by
  rw [get?, h.position?_eq]
  cases linePair? sets ways set way <;> simp [h.lines]

theorem set?_of_none (h : g.Shows layout t) {set way : Nat}
    (hpair : linePair? sets ways set way = none) (line : α) : g.set? set way line = none := by
  simp [set?, h.position?_eq, hpair]

theorem exists_set?_eq (h : g.Shows layout t) {set way : Nat} {pair : Fin sets × Fin ways}
    (hpair : linePair? sets ways set way = some pair) (line : α) :
    ∃ next, g.set? set way line = some next ∧ next.Shows layout (Function.update t pair line) := by
  refine ⟨{ g with lines := g.lines.setIfInBounds (layout.cell sets ways pair) line }, ?_, ?_⟩
  · simp [set?, h.position?_eq, hpair]
  · have hsize : g.lines.size = sets * ways := h.size
    refine ⟨h.sets_eq, h.ways_eq, h.layout_eq, by simp [LineGrid.size, hsize], fun other => ?_⟩
    rw [Array.getElem?_setIfInBounds, h.lines, Function.update_apply]
    -- Two pairs share a cell only if they are one pair.
    by_cases hsame : other = pair
    · simp [hsame, hsize]
    · have hne : (layout.cell sets ways pair).val ≠ (layout.cell sets ways other).val :=
        fun heq => hsame ((layout.cell sets ways).injective (Fin.ext heq)).symm
      simp [hsame, hne]

theorem perform (h : g.Shows layout t) (access : LineAccess α) :
    (g.perform access).1 = (t.perform access).1 ∧
      (g.perform access).2.Shows layout (t.perform access).2 := by
  cases access with
  | get? set way => simp [LineGrid.perform, LineTable.perform, h.get?_eq, h]
  | set? set way line =>
      cases hpair : linePair? sets ways set way with
      | none => simp [LineGrid.perform, LineTable.perform, h.set?_of_none hpair, hpair, h]
      | some pair =>
          obtain ⟨next, hnext, hshows⟩ := h.exists_set?_eq hpair line
          simp [LineGrid.perform, LineTable.perform, hnext, hpair, hshows]
  | get set way =>
      cases hpair : linePair? sets ways set way <;>
        simp [LineGrid.perform, LineTable.perform, LineGrid.get, h.get?_eq, hpair, h, h.sets_eq,
          h.ways_eq]
  | set set way line =>
      cases hpair : linePair? sets ways set way with
      | none =>
          simp [LineGrid.perform, LineTable.perform, LineGrid.set, h.set?_of_none hpair, hpair, h,
            h.sets_eq, h.ways_eq]
      | some pair =>
          obtain ⟨next, hnext, hshows⟩ := h.exists_set?_eq hpair line
          simp [LineGrid.perform, LineTable.perform, LineGrid.set, hnext, hpair, hshows]

theorem run (h : g.Shows layout t) (accesses : List (LineAccess α)) :
    (g.run accesses).1 = (t.run accesses).1 ∧
      (g.run accesses).2.Shows layout (t.run accesses).2 := by
  induction accesses generalizing g t with
  | nil => exact ⟨rfl, h⟩
  | cons access accesses ih =>
      obtain ⟨hanswer, hnext⟩ := h.perform access
      obtain ⟨hanswers, hlast⟩ := ih hnext
      exact ⟨congrArg₂ List.cons hanswer hanswers, hlast⟩

theorem toList_eq_ofFn (h : g.Shows layout t) :
    g.lines.toList = List.ofFn (t ∘ (layout.cell sets ways).symm) := by
  have hsize : g.lines.size = sets * ways := h.size
  refine List.ext_getElem? fun k => ?_
  rw [Array.getElem?_toList, List.getElem?_ofFn]
  by_cases hk : k < sets * ways
  · have hline := h.lines ((layout.cell sets ways).symm ⟨k, hk⟩)
    simpa [hk] using hline
  · simp [hk, hsize]

end Shows

theorem perm_of_shows {other : LineGrid α} {layout layout' : Layout} {t : LineTable sets ways α}
    (h : g.Shows layout t) (hother : other.Shows layout' t) :
    g.lines.toList.Perm other.lines.toList := by
  -- Cells of one pair correspond, from the one storage by way of the pairs to the other.
  let reorder := (layout.cell sets ways).symm.trans (layout'.cell sets ways)
  have hlines : t ∘ (layout.cell sets ways).symm =
      (t ∘ (layout'.cell sets ways).symm) ∘ reorder := by
    funext k
    simp [reorder]
  rw [h.toList_eq_ofFn, hother.toList_eq_ofFn, hlines]
  exact Equiv.Perm.ofFn_comp_perm reorder _

/-! ## New grids -/

section New

variable [Inhabited α]

theorem new_eq_error_iff {lines ways : Nat} {layout : Layout} {e : Rejection} :
    new (α := α) lines ways layout = .error e ↔
      (lines = 0 ∧ e = .zeroEntries) ∨
        (0 < lines ∧ ways = 0 ∧ e = .zeroWays) ∨
        (0 < lines ∧ 0 < ways ∧ ¬ ways ∣ lines ∧ e = .unevenWays lines ways) := by
  simp only [Nat.dvd_iff_mod_eq_zero, Nat.pos_iff_ne_zero]
  unfold new
  by_cases hlines : lines = 0
  · simp [hlines, eq_comm]
  by_cases hways : ways = 0
  · simp [hlines, hways, eq_comm]
  by_cases heven : lines % ways = 0 <;> simp [hlines, hways, heven, eq_comm]

theorem exists_new_eq_ok_iff {lines ways : Nat} {layout : Layout} :
    (∃ g : LineGrid α, new lines ways layout = .ok g) ↔ 0 < lines ∧ 0 < ways ∧ ways ∣ lines := by
  simp only [Nat.dvd_iff_mod_eq_zero, Nat.pos_iff_ne_zero]
  unfold new
  by_cases hlines : lines = 0
  · simp [hlines]
  by_cases hways : ways = 0
  · simp [hlines, hways]
  by_cases heven : lines % ways = 0 <;> simp [hlines, hways, heven]

theorem new_shows {sets ways : Nat} (hsets : 0 < sets) (hways : 0 < ways)
    (layout : Layout) :
    ∃ g : LineGrid α, new (sets * ways) ways layout = .ok g ∧
      g.Shows layout (fun _ : Fin sets × Fin ways => default) := by
  refine ⟨⟨sets, ways, layout, Array.replicate (sets * ways) default⟩, ?_, rfl, rfl, rfl, ?_, ?_⟩
  · have hlines : sets * ways ≠ 0 := (Nat.mul_pos hsets hways).ne'
    simp [new, hlines, hways.ne', Nat.mul_div_cancel _ hways]
  · simp [size]
  · intro pair
    have hcell := (layout.cell sets ways pair).isLt
    simp [hcell]

end New

structure Filled (g : LineGrid α) : Prop where
  inRange : ∀ set way, (∃ cell, g.position? set way = some cell) ↔ set < g.sets ∧ way < g.ways
  onePair : ∀ cell < g.size, ∃! pair : Nat × Nat, g.position? pair.1 pair.2 = some cell
  inside : ∀ set way cell, g.position? set way = some cell → cell < g.size
  counted : g.size < Size.limit → ∀ set way,
    g.countedPosition? set way = .ok (g.position? set way)

structure Transposed (bySet byWay : LineGrid α) (t : LineTable sets ways α) : Prop where
  shape : (bySet.sets = sets ∧ byWay.sets = sets) ∧ bySet.ways = ways ∧ byWay.ways = ways
  size : bySet.size = sets * ways ∧ byWay.size = sets * ways
  setMajor : ∀ (set : Fin sets) (way : Fin ways),
    bySet.lines[set.val * ways + way.val]? = some (t (set, way))
  wayMajor : ∀ (set : Fin sets) (way : Fin ways),
    byWay.lines[way.val * sets + set.val]? = some (t (set, way))
  perm : bySet.lines.toList.Perm byWay.lines.toList

theorem Shows.filled {layout : Layout} {t : LineTable sets ways α} (h : g.Shows layout t) :
    g.Filled where
  inRange set way := by
    rw [h.position?_eq, h.sets_eq, h.ways_eq, linePair?]
    by_cases hin : set < sets ∧ way < ways <;> simp [hin]
  onePair cell hcell := by
    rw [h.size] at hcell
    let pair := (layout.cell sets ways).symm ⟨cell, hcell⟩
    refine ⟨(pair.1.val, pair.2.val), ?_, ?_⟩
    · simp [h.position?_eq, linePair?_eq_some_iff.mpr ⟨rfl, rfl⟩, pair]
    · rintro ⟨set, way⟩ hother
      dsimp only at hother
      rw [h.position?_eq] at hother
      obtain ⟨other, hnamed, hsame⟩ := Option.map_eq_some_iff.mp hother
      obtain ⟨rfl, rfl⟩ := linePair?_eq_some_iff.mp hnamed
      have hpair : other = pair := (Equiv.eq_symm_apply _).mpr (Fin.ext hsame)
      rw [hpair]
  inside set way cell hcell := by
    rw [h.position?_eq] at hcell
    obtain ⟨pair, -, rfl⟩ := Option.map_eq_some_iff.mp hcell
    rw [h.size]
    exact (layout.cell sets ways pair).isLt
  counted hfits := countedPosition?_eq (by rw [h.sets_eq, h.ways_eq, ← h.size]; exact hfits)

theorem transposed_of_shows {other : LineGrid α} {t : LineTable sets ways α}
    (h : g.Shows .setMajor t) (hother : other.Shows .wayMajor t) : Transposed g other t where
  shape := ⟨⟨h.sets_eq, hother.sets_eq⟩, h.ways_eq, hother.ways_eq⟩
  size := ⟨h.size, hother.size⟩
  setMajor set way := by
    rw [← Layout.cell_setMajor (set, way)]
    exact h.lines (set, way)
  wayMajor set way := by
    rw [← Layout.cell_wayMajor (set, way)]
    exact hother.lines (set, way)
  perm := perm_of_shows h hother

variable [Inhabited α]

/-- A grid is new exactly when its lines split evenly into ways, and otherwise the first check that
fails is reported.  From then on a set-major and a way-major grid answer every run of accesses as
one table does, in which an access in range touches the line of its own pair and any other touches
none.  Their storages are transposes of each other all along. -/
theorem layouts_agree (lines ways : Nat) :
    (∀ layout, (∃ g : LineGrid α, new lines ways layout = .ok g) ↔
      0 < lines ∧ 0 < ways ∧ ways ∣ lines) ∧
    (∀ layout e, new (α := α) lines ways layout = .error e ↔
      (lines = 0 ∧ e = .zeroEntries) ∨
        (0 < lines ∧ ways = 0 ∧ e = .zeroWays) ∨
        (0 < lines ∧ 0 < ways ∧ ¬ ways ∣ lines ∧ e = .unevenWays lines ways)) ∧
    (0 < lines → 0 < ways → ways ∣ lines →
      ∃ sets, sets * ways = lines ∧
        ∃ bySet byWay : LineGrid α,
          new lines ways .setMajor = .ok bySet ∧ new lines ways .wayMajor = .ok byWay ∧
          ∀ accesses : List (LineAccess α), ∃ answers, ∃ table : LineTable sets ways α,
            LineTable.run (fun _ => default) accesses = (answers, table) ∧
            (bySet.run accesses).1 = answers ∧ (byWay.run accesses).1 = answers ∧
            (bySet.run accesses).2.Filled ∧ (byWay.run accesses).2.Filled ∧
            Transposed (bySet.run accesses).2 (byWay.run accesses).2 table) := by
  refine ⟨fun _ => exists_new_eq_ok_iff, fun _ _ => new_eq_error_iff, fun hlines hways heven => ?_⟩
  obtain ⟨sets, rfl⟩ := heven
  rw [Nat.mul_comm] at hlines ⊢
  have hsets : 0 < sets := Nat.pos_of_mul_pos_right hlines
  obtain ⟨bySet, hbySet, hset⟩ := new_shows (α := α) hsets hways .setMajor
  obtain ⟨byWay, hbyWay, hway⟩ := new_shows (α := α) hsets hways .wayMajor
  refine ⟨sets, rfl, bySet, byWay, hbySet, hbyWay, fun accesses => ⟨_, _, rfl, ?_⟩⟩
  obtain ⟨hsetAnswers, hset⟩ := hset.run accesses
  obtain ⟨hwayAnswers, hway⟩ := hway.run accesses
  exact ⟨hsetAnswers, hwayAnswers, hset.filled, hway.filled, transposed_of_shows hset hway⟩

theorem layouts_agree_six :
    0 < 6 ∧ 0 < 3 ∧ 3 ∣ 6 ∧
      ∃ bySet byWay : LineGrid Nat,
        new 6 3 .setMajor = .ok bySet ∧ new 6 3 .wayMajor = .ok byWay ∧
        (byWay.run [.set 1 0 7, .set? 0 3 9, .get? 1 0, .get 2 0]).1 =
          [.stored (.ok ()), .placed none, .found (some 7),
            .line (.error (.lineOutOfRange 2 0 2 3))] ∧
        (bySet.run [.set 1 0 7, .set? 0 3 9, .get? 1 0, .get 2 0]).2.lines[3]? = some 7 ∧
        (byWay.run [.set 1 0 7, .set? 0 3 9, .get? 1 0, .get 2 0]).2.lines[1]? = some 7 := by
  obtain ⟨-, -, hagree⟩ := layouts_agree (α := Nat) 6 3
  obtain ⟨sets, hsets, bySet, byWay, hbySet, hbyWay, hruns⟩ :=
    hagree (by decide) (by decide) (by decide)
  obtain rfl : sets = 2 := by omega
  obtain ⟨_, _, htable, -, hanswers, -, -, htransposed⟩ :=
    hruns [.set 1 0 7, .set? 0 3 9, .get? 1 0, .get 2 0]
  cases htable
  exact ⟨by decide, by decide, by decide, bySet, byWay, hbySet, hbyWay, hanswers,
    htransposed.setMajor 1 0, htransposed.wayMajor 1 0⟩

end LineGrid

end BankedStore
