import SoldMacho.Resolve
import Mathlib.Data.List.Sort

/-!
# Splitting sections into subsections

`split_regular_sections` turns the `N_SECT` symbols of each section into regions, sorts
them by offset, prepends a region for a gap at the start, promotes the second of two
regions at one offset to an alt entry (skipping the comparison after it, as the source's
`r[i++]` does), and closes each non-alt-entry region at the next one.
`split_subsections_via_symbols` creates one subsection per non-alt-entry region and binds
each symbol to `subsections.back()`, the subsection created last, then cuts `__cstring`
into NUL-terminated pieces.  `init_subsections` makes one subsection per section.

`std::sort` leaves equal offsets in an unspecified order; the model sorts with insertion
sort, which keeps the symbol-table order (as `std::sort` does on the short ranges it
sorts by insertion).  The tiling results below hold for any order of equal offsets.

Main results:

* `fixRegions_tiles`: when no alt-entry symbol sits at the start of the section, the
  non-alt-entry regions follow each other from offset 0 to the section end;
* `splitSubsectionsViaSymbols_spans`: the subsections created for a section are exactly
  those regions, in order, so `splitSubsectionsViaSymbols_tiles` carries the tiling to
  them;
* `initSubsections_binds`: without subsections via symbols, every `N_SECT` symbol of a
  section is bound to the subsection covering that section;
* `splitSubsectionsViaSymbols_fresh`, `initSubsections_fresh`: both splitters create
  subsections with empty unwind spans;
* `splitCstring_spec`: the `__cstring` loop fails exactly when the section does not end
  in NUL, and otherwise cuts it into consecutive pieces covering it, each a run of
  non-NUL bytes and the maximal run of NULs after it, aligned to `2 ^ p2align`.  The
  `u8` minimum makes the piece at offset 0 take `min(p2align % 256, 64)`.

Two layouts the splitter does not cover close the module: an alt-entry symbol listed
first at the start of a section is promoted together with the primary symbol there, and
the section gets no subsection at all; a label in `__cstring` gets no region, so
`sym_to_subsec` stays null and `resolve_symbols` reaches the null subsection.
-/

namespace SoldMacho

/-- A `SplitRegion`.  `symidx` is `none` for the sentinel `(u32)-1`; a symbol's region
gets its size in the closing pass (the source leaves it unset until then). -/
structure SplitRegion where
  offset : Nat
  size : Nat := 0
  symidx : Option Nat
  isAltEntry : Bool
  deriving DecidableEq, Repr

/-- The sort of `split_regular_sections`, by offset. -/
def sortRegions (r : List SplitRegion) : List SplitRegion :=
  r.insertionSort fun a b => a.offset ≤ b.offset

/-- The promotion loop `for (i = 1; i < r.size(); i++) if (r[i - 1].offset == r[i].offset)
r[i++].is_alt_entry = true;` from the region after `prev`: the second region of a pair at
one offset becomes an alt entry, and the region after it is not compared with it
(`prev = none`: the next region is not compared). -/
def promoteFrom : Option SplitRegion → List SplitRegion → List SplitRegion
  | _, [] => []
  | none, b :: rest => b :: promoteFrom (some b) rest
  | some a, b :: rest =>
    if a.offset = b.offset then { b with isAltEntry := true } :: promoteFrom none rest
    else b :: promoteFrom (some b) rest

/-- The promotion loop over all regions; `r[0]` is never compared as a second region. -/
def promoteAltEntries (r : List SplitRegion) : List SplitRegion := promoteFrom none r

/-- Where the region before `rest` ends: the offset of the first non-alt-entry region of
`rest`, or the section size. -/
def nextStart (size : Nat) : List SplitRegion → Nat
  | [] => size
  | r :: rest => if r.isAltEntry then nextStart size rest else r.offset

/-- The closing pass: each non-alt-entry region extends to the next one, the last to
the section end, in 32-bit arithmetic; alt-entry regions keep their size. -/
def closeSizes (size : Nat) : List SplitRegion → List SplitRegion
  | [] => []
  | r :: rest =>
    if r.isAltEntry then r :: closeSizes size rest
    else { r with size := wrapSub 32 (nextStart size rest) r.offset } :: closeSizes size rest

/-- The fixing loop of `split_regular_sections` for a section of size `size`. -/
def fixRegions (size : Nat) (r : List SplitRegion) : List SplitRegion :=
  match sortRegions r with
  | [] => [{ offset := 0, size := size % 2 ^ 32, symidx := none, isAltEntry := false }]
  | r0 :: rs =>
    closeSizes size <| promoteAltEntries <|
      if 0 < r0.offset then
        { offset := 0, size := r0.offset, symidx := none, isAltEntry := false } :: r0 :: rs
      else r0 :: rs

/-- The parts of an object file the splitter reads: `sections`, with `none` for
`__LD,__compact_unwind` and debug sections, and `mach_syms`. -/
structure MachObject where
  sections : List (Option InputSection)
  machSyms : List MachSym
  deriving DecidableEq, Repr

/-- The region symbol `k` contributes to section `j` (`msym.sect - 1 = j`), if any. -/
def symbolRegion (isec : InputSection) (j k : Nat) (msym : MachSym) : List SplitRegion :=
  if msym.type = .sect ∧ msym.sect = j + 1 then
    [{ offset := wrapSub 32 msym.value isec.hdr.addr, symidx := some k,
       isAltEntry := descHas msym.desc N_ALT_ENTRY }]
  else []

/-- The regions the symbol loop of `split_regular_sections` pushes for section `j`, in
symbol-table order. -/
def sectionRegions (obj : MachObject) (isec : InputSection) (j : Nat) : List SplitRegion :=
  obj.machSyms.enum.flatMap fun (k, msym) => symbolRegion isec j k msym

/-- The `SplitInfo` of section `j`, unless it is absent or `__TEXT,__cstring`. -/
def splitInfo (obj : MachObject) : Nat × Option InputSection →
    Option (Nat × InputSection × List SplitRegion)
  | (j, some isec) =>
    if isec.hdr.matches "__TEXT" "__cstring" then none else some (j, isec, sectionRegions obj isec j)
  | (_, none) => none

/-- `split_regular_sections`: for each section other than `__TEXT,__cstring`, sorted by
address, its index, header and fixed regions. -/
def splitRegularSections (obj : MachObject) : List (Nat × InputSection × List SplitRegion) :=
  ((obj.sections.enum.filterMap (splitInfo obj)).insertionSort
      fun a b => a.2.1.hdr.addr ≤ b.2.1.hdr.addr).map
    fun (j, isec, r) => (j, isec, fixRegions isec.hdr.size r)

/-- Fatal errors and undefined behaviour of the splitter. -/
inductive SplitError where
  /-- `Fatal: corruupted __TEXT,__cstring`: no NUL after a piece. -/
  | corruptedCstring
  /-- `subsections.back()` on an empty vector. -/
  | emptyBack
  /-- The step bound of `splitCstring` ran out (never, with enough steps). -/
  | outOfSteps
  deriving DecidableEq, Repr

/-- The subsections created so far (the pool, in creation order) and `sym_to_subsec`. -/
structure SplitState where
  pool : List Subsection
  symToSubsec : List (Option Nat)
  deriving DecidableEq, Repr

/-- The subsection `add(isec, offset, size, p2align)` creates for section `j`; `offset`
and `size` are `u32` parameters, so the values passed are truncated to 32 bits. -/
def newSubsection (j : Nat) (isec : InputSection) (offset size p2align : Nat) : Subsection where
  isec := j
  inputOffset := offset % 2 ^ 32
  inputSize := size % 2 ^ 32
  inputAddr := (isec.hdr.addr + offset % 2 ^ 32) % 2 ^ 32
  p2align := p2align

/-- The `add` lambda: a new subsection at the end of the pool. -/
def SplitState.add (st : SplitState) (j : Nat) (isec : InputSection) (offset size p2align : Nat) :
    SplitState :=
  { st with pool := st.pool ++ [newSubsection j isec offset size p2align] }

/-- One region of the loop of `split_subsections_via_symbols`: a subsection for a
non-alt-entry region, then `sym_to_subsec[symidx] = subsections.back()`. -/
def splitRegion (j : Nat) (isec : InputSection) (st : SplitState) (r : SplitRegion) :
    Except SplitError SplitState :=
  let st := if r.isAltEntry then st else st.add j isec r.offset r.size (isec.hdr.p2align % 2 ^ 8)
  match r.symidx with
  | none => .ok st
  | some k =>
    if st.pool.length = 0 then .error .emptyBack
    else .ok { st with symToSubsec := st.symToSubsec.set k (some (st.pool.length - 1)) }

/-- The regular part of `split_subsections_via_symbols`: the regions of one `SplitInfo`. -/
def splitSection (st : SplitState) : Nat × InputSection × List SplitRegion →
    Except SplitError SplitState
  | (j, isec, r) => r.foldlM (splitRegion j isec) st

/-- `std::countr_zero` of a 64-bit value: 64 for zero. -/
def countrZero (n : Nat) : Nat :=
  if n % 2 ^ 64 = 0 then 64 else go 64 n
where
  /-- Trailing zeros of a nonzero value, within `k` bits. -/
  go : Nat → Nat → Nat
    | 0, _ => 0
    | k + 1, n => if n % 2 = 0 then go k (n / 2) + 1 else 0

/-- `str.find('\0', pos)`. -/
def findNul (s : List UInt8) (pos : Nat) : Option Nat :=
  ((s.drop pos).findIdx? (· = 0)).map (· + pos)

/-- `str.find_first_not_of('\0', pos)`. -/
def findNotNul (s : List UInt8) (pos : Nat) : Option Nat :=
  ((s.drop pos).findIdx? (· ≠ 0)).map (· + pos)

/-- The `__cstring` loop from offset `pos`, within `steps` iterations: each piece is
`[pos, end)`, where `end` is past the NUL run that follows `pos`, with alignment
`min(p2align, countr_zero(pos))`.  The result lists `(offset, size, p2align)`. -/
def splitCstring (s : List UInt8) (p2align : Nat) :
    Nat → Nat → Except SplitError (List (Nat × Nat × Nat))
  | 0, _ => .error .outOfSteps
  | steps + 1, pos =>
    if pos < s.length then
      match findNul s pos with
      | none => .error .corruptedCstring
      | some e =>
        let e := (findNotNul s e).getD s.length
        (splitCstring s p2align steps e).map
          ((pos, e - pos, min (p2align % 2 ^ 8) (countrZero pos)) :: ·)
    else .ok []

/-- The `__cstring` part of `split_subsections_via_symbols`, on section `j`. -/
def splitCstringSection (st : SplitState) : Nat × Option InputSection →
    Except SplitError SplitState
  | (j, some isec) =>
    if isec.hdr.matches "__TEXT" "__cstring" then
      (splitCstring isec.contents isec.hdr.p2align (isec.contents.length + 1) 0).map
        fun pieces => pieces.foldl (fun st (o, n, a) => st.add j isec o n a) st
    else .ok st
  | (_, none) => .ok st

/-- `ObjectFile::split_subsections_via_symbols`. -/
def splitSubsectionsViaSymbols (obj : MachObject) : Except SplitError SplitState := do
  let st ← (splitRegularSections obj).foldlM splitSection
    { pool := [], symToSubsec := List.replicate obj.machSyms.length none }
  obj.sections.enum.foldlM splitCstringSection st

/-- The sections that have an `InputSection`, with their indices. -/
def presentSections (obj : MachObject) : List (Nat × InputSection) :=
  obj.sections.enum.filterMap fun
    | (j, some isec) => some (j, isec)
    | (_, none) => none

/-- `ObjectFile::init_subsections`: one subsection per section, and every `N_SECT`
symbol bound to its section's subsection (`subsections[msym.sect - 1]`, null for a
section without an `InputSection`). -/
def initSubsections (obj : MachObject) : SplitState where
  pool := (presentSections obj).map fun (j, isec) =>
    { isec := j, inputOffset := 0, inputSize := isec.hdr.size % 2 ^ 32,
      inputAddr := isec.hdr.addr % 2 ^ 32, p2align := isec.hdr.p2align % 2 ^ 8 }
  symToSubsec := obj.machSyms.map fun msym =>
    if msym.type = .sect then (presentSections obj).findIdx? (·.1 + 1 = msym.sect) else none

/-- The object as `resolve_symbols` reads it after splitting: entry `k` is `mach_syms[k]`
with `sym_to_subsec[k]`, naming the interned symbol `syms k`. -/
def MachObject.toObjectFile (obj : MachObject) (st : SplitState) (priority : Nat)
    (syms : Nat → Nat) : ObjectFile where
  priority := priority
  entries := obj.machSyms.enum.map fun (k, msym) =>
    { msym := msym, sym := syms k, subsec := (st.symToSubsec[k]?).join }
  subsecPool := st.pool

/-! ### Tiling -/

/-- The ranges `(offset, size)` of the non-alt-entry regions, in order: the pieces a
section is cut into. -/
def spans (r : List SplitRegion) : List (Nat × Nat) :=
  (r.filter (!·.isAltEntry)).map fun x => (x.offset, x.size)

/-- `Tiles a b l`: each range of `l` starts where the one before it ends, the first at
`a` and the last ending at `b`. -/
def Tiles : Nat → Nat → List (Nat × Nat) → Prop
  | a, b, [] => a = b
  | a, b, (o, n) :: l => o = a ∧ Tiles (a + n) b l

instance decTiles : ∀ a b l, Decidable (Tiles a b l)
  | a, b, [] => inferInstanceAs (Decidable (a = b))
  | a, b, (o, n) :: l =>
    have := decTiles (a + n) b l
    inferInstanceAs (Decidable (o = a ∧ Tiles (a + n) b l))

theorem Tiles.le : ∀ {a b l}, Tiles a b l → a ≤ b
  | _, _, [], h => Nat.le_of_eq h
  | _, _, (_, _) :: _, h => Nat.le_trans (Nat.le_add_right _ _) h.2.le

theorem Tiles.le_fst : ∀ {a b l}, Tiles a b l → ∀ q ∈ l, a ≤ q.1
  | _, _, [], _, _, hq => absurd hq (List.not_mem_nil _)
  | _, _, (_, _) :: _, ⟨ho, h⟩, q, hq => by
    rcases List.mem_cons.mp hq with rfl | hq
    · exact Nat.le_of_eq ho.symm
    · exact Nat.le_trans (Nat.le_add_right _ _) (h.le_fst q hq)

theorem Tiles.add_le : ∀ {a b l}, Tiles a b l → ∀ q ∈ l, q.1 + q.2 ≤ b
  | _, _, [], _, _, hq => absurd hq (List.not_mem_nil _)
  | _, _, (_, _) :: _, ⟨ho, h⟩, q, hq => by
    rcases List.mem_cons.mp hq with rfl | hq
    · exact ho ▸ h.le
    · exact h.add_le q hq

/-- Tiling ranges are in order and disjoint: each ends before the next starts. -/
theorem Tiles.pairwise : ∀ {a b l}, Tiles a b l → l.Pairwise fun p q => p.1 + p.2 ≤ q.1
  | _, _, [], _ => .nil
  | _, _, (_, _) :: _, ⟨ho, h⟩ => .cons (fun q hq => ho ▸ h.le_fst q hq) h.pairwise

/-- Tiling ranges cover exactly `[a, b)`. -/
theorem Tiles.mem_iff : ∀ {a b l}, Tiles a b l →
    ∀ x, (a ≤ x ∧ x < b ↔ ∃ p ∈ l, p.1 ≤ x ∧ x < p.1 + p.2)
  | _, _, [], h, x => by
    have h : _ = _ := h
    simp [h]
  | _, _, (_, _) :: _, ⟨ho, h⟩, x => by
    have := h.le
    simp only [List.mem_cons, exists_eq_or_imp, ← h.mem_iff x]
    omega

example : Tiles 0 16 [(0, 4), (4, 0), (4, 12)] := by decide

theorem promoteFrom_offsets :
    ∀ (p : Option SplitRegion) (r : List SplitRegion),
      (promoteFrom p r).map (·.offset) = r.map (·.offset)
  | p, [] => by cases p <;> rfl
  | none, b :: rest => by simp [promoteFrom, promoteFrom_offsets _ rest]
  | some a, b :: rest => by
    unfold promoteFrom
    split <;> simp [promoteFrom_offsets _ rest]

theorem nextStart_le (size : Nat) :
    ∀ l : List SplitRegion, (∀ o ∈ l.map (·.offset), o ≤ size) → nextStart size l ≤ size
  | [], _ => Nat.le_refl _
  | r :: rest, h => by
    rw [List.map_cons, List.forall_mem_cons] at h
    unfold nextStart
    split
    · exact nextStart_le size rest h.2
    · exact h.1

theorem le_nextStart {size o : Nat} (ho : o ≤ size) :
    ∀ l : List SplitRegion, (∀ p ∈ l.map (·.offset), o ≤ p) → o ≤ nextStart size l
  | [], _ => ho
  | r :: rest, h => by
    rw [List.map_cons, List.forall_mem_cons] at h
    unfold nextStart
    split
    · exact le_nextStart ho rest h.2
    · exact h.1

/-- The closing pass tiles from the first non-alt-entry offset to the section end,
whatever the alt-entry bits, on offsets sorted and within the section. -/
theorem closeSizes_tiles {size : Nat} (hs : size < 2 ^ 32) :
    ∀ l : List SplitRegion, (l.map (·.offset)).Sorted (· ≤ ·) →
      (∀ o ∈ l.map (·.offset), o ≤ size) → Tiles (nextStart size l) size (spans (closeSizes size l))
  | [], _, _ => rfl
  | r :: rest, hsort, hle => by
    rw [List.map_cons, List.sorted_cons] at hsort
    rw [List.map_cons, List.forall_mem_cons] at hle
    have ih := closeSizes_tiles hs rest hsort.2 hle.2
    cases halt : r.isAltEntry
    · have hlo : r.offset ≤ nextStart size rest := le_nextStart hle.1 rest hsort.1
      have hhi := nextStart_le size rest hle.2
      have hw : r.offset + wrapSub 32 (nextStart size rest) r.offset = nextStart size rest := by
        rw [wrapSub_of_le hlo (by omega), Nat.add_sub_cancel' hlo]
      simpa [closeSizes, nextStart, spans, halt, Tiles, hw] using ih
    · simpa [closeSizes, nextStart, spans, halt] using ih

/-- Promotion keeps the head, so a list that starts with a non-alt-entry region at
offset 0 is closed into a tiling of the whole section. -/
theorem closeSizes_promote_tiles {size : Nat} (hs : size < 2 ^ 32) {h : SplitRegion}
    {t : List SplitRegion} (h0 : h.offset = 0) (hna : h.isAltEntry = false)
    (hsort : ((h :: t).map (·.offset)).Sorted (· ≤ ·))
    (hle : ∀ o ∈ (h :: t).map (·.offset), o ≤ size) :
    Tiles 0 size (spans (closeSizes size (promoteAltEntries (h :: t)))) := by
  have hoff := promoteFrom_offsets none (h :: t)
  have := closeSizes_tiles hs _ (hoff ▸ hsort) (hoff ▸ hle)
  simp only [promoteAltEntries, promoteFrom] at this ⊢
  rwa [nextStart, hna, if_neg Bool.false_ne_true, h0] at this

instance : IsTotal SplitRegion fun a b => a.offset ≤ b.offset := ⟨fun _ _ => Nat.le_total _ _⟩

instance : IsTrans SplitRegion fun a b => a.offset ≤ b.offset := ⟨fun _ _ _ => Nat.le_trans⟩

/-- When no alt-entry region sits at offset 0, the fixed regions tile the section:
their non-alt-entry ranges follow each other from 0 to `size`. -/
theorem fixRegions_tiles {size : Nat} (hs : size < 2 ^ 32) (r : List SplitRegion)
    (hle : ∀ x ∈ r, x.offset ≤ size) (halt : ∀ x ∈ r, x.offset = 0 → x.isAltEntry = false) :
    Tiles 0 size (spans (fixRegions size r)) := by
  have hperm : (sortRegions r).Perm r := List.perm_insertionSort _ r
  have hsorted : ((sortRegions r).map (·.offset)).Sorted (· ≤ ·) := List.pairwise_map.mpr
    (List.sorted_insertionSort (fun a b : SplitRegion => a.offset ≤ b.offset) r)
  have hbound : ∀ o ∈ (sortRegions r).map (·.offset), o ≤ size := fun o ho => by
    obtain ⟨x, hx, rfl⟩ := List.mem_map.mp ho
    exact hle x (hperm.subset hx)
  unfold fixRegions
  split
  · exact ⟨rfl, show 0 + size % 2 ^ 32 = size by rw [Nat.mod_eq_of_lt hs, Nat.zero_add]⟩
  · rename_i r0 rs hsr
    rw [hsr] at hsorted hbound
    split
    · refine closeSizes_promote_tiles hs rfl rfl ?_ ?_
      · exact List.sorted_cons.mpr ⟨fun b _ => Nat.zero_le b, hsorted⟩
      · exact fun o ho => (List.mem_cons.mp ho).elim (fun h => h ▸ Nat.zero_le _) (hbound o)
    · have h0 : r0.offset = 0 := by omega
      have hr0 : r0 ∈ r := hperm.subset (hsr ▸ List.mem_cons_self _ _)
      exact closeSizes_promote_tiles hs h0 (halt r0 hr0 h0) hsorted hbound

theorem mem_promoteFrom_offset {p : Option SplitRegion} {l : List SplitRegion} {x : SplitRegion}
    (hx : x ∈ promoteFrom p l) : ∃ y ∈ l, x.offset = y.offset := by
  have := List.mem_map_of_mem (·.offset) hx
  rw [promoteFrom_offsets] at this
  obtain ⟨y, hy, h⟩ := List.mem_map.mp this
  exact ⟨y, hy, h.symm⟩

/-- The closing pass keeps offsets, and a region it leaves non-alt-entry has a size
computed in 32-bit arithmetic. -/
theorem mem_closeSizes {size : Nat} :
    ∀ {l : List SplitRegion} {x : SplitRegion}, x ∈ closeSizes size l → x.isAltEntry = false →
      ∃ y ∈ l, x.offset = y.offset ∧ x.size < 2 ^ 32
  | [], _, hx, _ => absurd hx (List.not_mem_nil _)
  | r :: rest, x, hx, hna => by
    have ih : x ∈ closeSizes size rest → ∃ y ∈ r :: rest, x.offset = y.offset ∧ x.size < 2 ^ 32 :=
      fun hx => (mem_closeSizes hx hna).imp fun y ⟨hy, h⟩ => ⟨List.mem_cons_of_mem r hy, h⟩
    unfold closeSizes at hx
    split at hx <;> rcases List.mem_cons.mp hx with rfl | hx
    · rename_i halt
      rw [hna] at halt
      cases halt
    · exact ih hx
    · exact ⟨r, List.mem_cons_self _ _, rfl, Nat.mod_lt _ (Nat.two_pow_pos 32)⟩
    · exact ih hx

/-- The regions `add` receives fit its `u32` parameters when the symbol offsets do. -/
theorem fixRegions_lt {size : Nat} {r : List SplitRegion} (hr : ∀ x ∈ r, x.offset < 2 ^ 32) :
    ∀ x ∈ fixRegions size r, x.isAltEntry = false → x.offset < 2 ^ 32 ∧ x.size < 2 ^ 32 := by
  have hsort : ∀ x ∈ sortRegions r, x.offset < 2 ^ 32 := fun x hx =>
    hr x ((List.perm_insertionSort _ r).subset hx)
  intro x hx hna
  unfold fixRegions at hx
  split at hx
  · rcases List.mem_singleton.mp hx with rfl
    exact ⟨Nat.two_pow_pos 32, Nat.mod_lt _ (Nat.two_pow_pos 32)⟩
  · rename_i r0 rs hsr
    rw [hsr] at hsort
    obtain ⟨y, hy, hoff, hsize⟩ := mem_closeSizes hx hna
    obtain ⟨z, hz, hyz⟩ := mem_promoteFrom_offset hy
    rw [hoff, hyz]
    refine ⟨?_, hsize⟩
    split at hz
    · rcases List.mem_cons.mp hz with rfl | hz
      · exact Nat.two_pow_pos 32
      · exact hsort z hz
    · exact hsort z hz

/-! ### The subsections of a section -/

theorem splitRegion_pool {j : Nat} {isec : InputSection} {st st' : SplitState} {r : SplitRegion}
    (h : splitRegion j isec st r = .ok st') :
    st'.pool = st.pool ++ if r.isAltEntry then []
      else [newSubsection j isec r.offset r.size (isec.hdr.p2align % 2 ^ 8)] := by
  cases halt : r.isAltEntry <;> cases hk : r.symidx <;>
    simp only [splitRegion, halt, hk, if_true, if_false, Bool.false_eq_true] at h <;>
    (try split at h) <;> cases h <;> simp [SplitState.add]

/-- The subsections the regions of one section give, in order. -/
def regionSubsections (j : Nat) (isec : InputSection) (r : List SplitRegion) : List Subsection :=
  (r.filter (!·.isAltEntry)).map fun x =>
    newSubsection j isec x.offset x.size (isec.hdr.p2align % 2 ^ 8)

theorem splitSection_pool {j : Nat} {isec : InputSection} :
    ∀ {r : List SplitRegion} {st st' : SplitState}, splitSection st (j, isec, r) = .ok st' →
      st'.pool = st.pool ++ regionSubsections j isec r
  | [], _, _, h => by cases h; simp [regionSubsections]
  | x :: r, _, _, h => by
    obtain ⟨st1, h1, h2⟩ := except_bind_eq_ok.mp h
    rw [splitSection_pool h2, splitRegion_pool h1]
    cases hx : x.isAltEntry <;> simp [regionSubsections, hx]

theorem foldlM_splitSection_pool :
    ∀ {L : List (Nat × InputSection × List SplitRegion)} {st st' : SplitState},
      L.foldlM splitSection st = .ok st' →
        st'.pool = st.pool ++ L.flatMap fun (j, isec, r) => regionSubsections j isec r
  | [], _, _, h => by cases h; simp
  | (_, _, _) :: _, _, _, h => by
    obtain ⟨st1, h1, h2⟩ := except_bind_eq_ok.mp h
    rw [foldlM_splitSection_pool h2, splitSection_pool h1]
    simp

theorem foldl_add_pool (j : Nat) (isec : InputSection) :
    ∀ (pieces : List (Nat × Nat × Nat)) (st : SplitState),
      (pieces.foldl (fun st (o, n, a) => st.add j isec o n a) st).pool =
        st.pool ++ pieces.map fun (o, n, a) => newSubsection j isec o n a
  | [], _ => by simp
  | (_, _, _) :: ps, _ => by
    rw [List.foldl_cons, foldl_add_pool j isec ps]
    simp [SplitState.add]

/-- The `__cstring` part only adds fresh subsections of `__cstring` sections. -/
theorem splitCstringSection_pool {st st' : SplitState} {js : Nat × Option InputSection}
    (h : splitCstringSection st js = .ok st') :
    ∃ extra, st'.pool = st.pool ++ extra ∧ ∀ s ∈ extra, s.nunwind = 0 ∧
      ∃ isec, js = (s.isec, some isec) ∧ isec.hdr.matches "__TEXT" "__cstring" = true := by
  match js, h with
  | (_, none), h => cases h; exact ⟨[], by simp, by simp⟩
  | (j, some isec), h =>
    by_cases hc : isec.hdr.matches "__TEXT" "__cstring" = true
    · simp only [splitCstringSection, if_pos hc] at h
      obtain ⟨pieces, -, rfl⟩ := except_map_eq_ok.mp h
      refine ⟨_, foldl_add_pool j isec pieces st, ?_⟩
      simp only [List.mem_map]
      rintro s ⟨⟨o, n, a⟩, -, rfl⟩
      exact ⟨rfl, isec, rfl, hc⟩
    · simp only [splitCstringSection, if_neg hc] at h
      cases h; exact ⟨[], by simp, by simp⟩

theorem foldlM_splitCstringSection_pool :
    ∀ {l : List (Nat × Option InputSection)} {st st' : SplitState},
      l.foldlM splitCstringSection st = .ok st' →
        ∃ extra, st'.pool = st.pool ++ extra ∧ ∀ s ∈ extra, s.nunwind = 0 ∧
          ∃ isec, (s.isec, some isec) ∈ l ∧ isec.hdr.matches "__TEXT" "__cstring" = true
  | [], _, _, h => by cases h; exact ⟨[], by simp, by simp⟩
  | _ :: _, _, _, h => by
    obtain ⟨st1, h1, h2⟩ := except_bind_eq_ok.mp h
    obtain ⟨e1, he1, hm1⟩ := splitCstringSection_pool h1
    obtain ⟨e2, he2, hm2⟩ := foldlM_splitCstringSection_pool h2
    refine ⟨e1 ++ e2, by rw [he2, he1, List.append_assoc], fun s hs => ?_⟩
    rcases List.mem_append.mp hs with hs | hs
    · obtain ⟨h0, isec, rfl, hc⟩ := hm1 s hs
      exact ⟨h0, isec, List.mem_cons_self _ _, hc⟩
    · obtain ⟨h0, isec, hl, hc⟩ := hm2 s hs
      exact ⟨h0, isec, List.mem_cons_of_mem _ hl, hc⟩

theorem splitInfo_fst {obj : MachObject} :
    ∀ {x : Nat × Option InputSection} {y}, splitInfo obj x = some y → y.1 = x.1
  | (_, some isec), _, h => by
    by_cases hc : isec.hdr.matches "__TEXT" "__cstring" = true
    · simp [splitInfo, hc] at h
    · simp only [splitInfo, hc, if_false, Bool.false_eq_true, Option.some.injEq] at h
      rw [← h]
  | (_, none), _, h => by cases h

theorem splitRegularSections_nodup (obj : MachObject) :
    ((splitRegularSections obj).map (·.1)).Nodup := by
  have hsub : ∀ l : List (Nat × Option InputSection),
      ((l.filterMap (splitInfo obj)).map (·.1)).Sublist (l.map (·.1)) := by
    intro l
    induction l with
    | nil => exact .slnil
    | cons x l ih =>
      cases hx : splitInfo obj x with
      | none => simpa [List.filterMap_cons, hx] using ih.cons x.1
      | some y => simpa [List.filterMap_cons, hx, splitInfo_fst hx] using ih.cons₂ x.1
  have hinfo := (hsub obj.sections.enum).nodup
    (List.enum_map_fst obj.sections ▸ List.nodup_range _)
  have hfst : ((·.1) ∘ fun x : Nat × InputSection × List SplitRegion =>
      match x with | (j, isec, r) => (j, isec, fixRegions isec.hdr.size r)) = (·.1) := by
    funext ⟨_, _, _⟩; rfl
  rw [splitRegularSections, List.map_map, hfst]
  exact ((List.perm_insertionSort _ _).map _).nodup_iff.mpr hinfo

theorem mem_splitRegularSections {obj : MachObject} {j : Nat} {isec : InputSection}
    (hj : obj.sections[j]? = some (some isec))
    (hc : isec.hdr.matches "__TEXT" "__cstring" = false) :
    (j, isec, fixRegions isec.hdr.size (sectionRegions obj isec j)) ∈
      splitRegularSections obj := by
  refine List.mem_map.mpr ⟨(j, isec, sectionRegions obj isec j), ?_, rfl⟩
  refine (List.perm_insertionSort (fun a b : Nat × InputSection × List SplitRegion =>
    a.2.1.hdr.addr ≤ b.2.1.hdr.addr) _).symm.subset
      (List.mem_filterMap.mpr ⟨(j, some isec), ?_, ?_⟩)
  · exact List.mem_enum_iff_getElem?.mpr hj
  · simp [splitInfo, hc]

theorem isec_eq_of_mem_regionSubsections {j : Nat} {isec : InputSection}
    {r : List SplitRegion} {s : Subsection} (hs : s ∈ regionSubsections j isec r) :
    s.isec = j := by
  obtain ⟨_, -, rfl⟩ := List.mem_map.mp hs
  rfl

theorem isec_of_mem_regionSubsections {L : List (Nat × InputSection × List SplitRegion)}
    {s : Subsection} (hs : s ∈ L.flatMap fun (j, isec, r) => regionSubsections j isec r) :
    s.isec ∈ L.map (·.1) := by
  obtain ⟨⟨j, isec, r⟩, hx, hs⟩ := List.mem_flatMap.mp hs
  rw [isec_eq_of_mem_regionSubsections hs]
  exact List.mem_map_of_mem _ hx

/-- With distinct section indices, the subsections of section `j` are those of its
own regions. -/
theorem filter_regionSubsections {j : Nat} {isec : InputSection} {r : List SplitRegion} :
    ∀ {L : List (Nat × InputSection × List SplitRegion)}, (L.map (·.1)).Nodup →
      (j, isec, r) ∈ L →
        (L.flatMap fun (j, isec, r) => regionSubsections j isec r).filter (·.isec = j) =
          regionSubsections j isec r
  | [], _, hm => absurd hm (List.not_mem_nil _)
  | (j', isec', r') :: L, hnd, hm => by
    rw [List.map_cons, List.nodup_cons] at hnd
    have hrest : ∀ s ∈ L.flatMap (fun (j, isec, r) => regionSubsections j isec r),
        s.isec ≠ j' := fun s hs h => hnd.1 (h ▸ isec_of_mem_regionSubsections hs)
    rw [List.flatMap_cons, List.filter_append]
    rcases List.mem_cons.mp hm with heq | hm
    · cases heq
      rw [List.filter_eq_self.mpr fun s hs => by simp [isec_eq_of_mem_regionSubsections hs],
        List.filter_eq_nil_iff.mpr fun s hs => by simp [hrest s hs], List.append_nil]
    · have hj : j' ≠ j := fun h => hnd.1 (h ▸ List.mem_map_of_mem (·.1) hm)
      rw [List.filter_eq_nil_iff.mpr fun s hs => by simp [isec_eq_of_mem_regionSubsections hs, hj],
        filter_regionSubsections hnd.2 hm, List.nil_append]

theorem mem_sectionRegions {obj : MachObject} {isec : InputSection} {j : Nat} {x : SplitRegion}
    (hx : x ∈ sectionRegions obj isec j) :
    ∃ msym ∈ obj.machSyms, msym.type = .sect ∧ msym.sect = j + 1 ∧
      x.offset = wrapSub 32 msym.value isec.hdr.addr ∧
      x.isAltEntry = descHas msym.desc N_ALT_ENTRY := by
  obtain ⟨⟨k, msym⟩, hk, hx⟩ := List.mem_flatMap.mp hx
  by_cases hsect : msym.type = .sect ∧ msym.sect = j + 1
  · simp only [symbolRegion, if_pos hsect, List.mem_singleton] at hx
    subst hx
    exact ⟨msym, List.snd_mem_of_mem_enum hk, hsect.1, hsect.2, rfl, rfl⟩
  · simp [symbolRegion, hsect] at hx

/-- `split_subsections_via_symbols` creates for a regular section exactly one subsection
per non-alt-entry region of `split_regular_sections`, in order. -/
theorem splitSubsectionsViaSymbols_spans {obj : MachObject} {st : SplitState}
    (h : splitSubsectionsViaSymbols obj = .ok st) {j : Nat} {isec : InputSection}
    (hj : obj.sections[j]? = some (some isec))
    (hc : isec.hdr.matches "__TEXT" "__cstring" = false) :
    (st.pool.filter (·.isec = j)).map (fun s => (s.inputOffset, s.inputSize)) =
      spans (fixRegions isec.hdr.size (sectionRegions obj isec j)) := by
  obtain ⟨st1, h1, h2⟩ := except_bind_eq_ok.mp h
  obtain ⟨extra, hpool, hextra⟩ := foldlM_splitCstringSection_pool h2
  have hnil : extra.filter (·.isec = j) = [] := List.filter_eq_nil_iff.mpr fun s hs hsj => by
    obtain ⟨-, isec', hmem, hc'⟩ := hextra s hs
    rw [List.mem_enum_iff_getElem?, of_decide_eq_true hsj, hj] at hmem
    cases hmem
    rw [hc] at hc'
    cases hc'
  rw [hpool, foldlM_splitSection_pool h1, List.filter_append, hnil, List.append_nil,
    List.filter_append, filter_regionSubsections (splitRegularSections_nodup obj)
      (mem_splitRegularSections hj hc)]
  simp only [List.filter_nil, List.nil_append, regionSubsections, spans, List.map_map]
  refine List.map_congr_left fun x hx => ?_
  obtain ⟨hx, hna⟩ := List.mem_filter.mp hx
  obtain ⟨ho, hs⟩ := fixRegions_lt (fun x hx => by
    obtain ⟨_, -, -, -, hoff, -⟩ := mem_sectionRegions hx
    exact hoff ▸ Nat.mod_lt _ (Nat.two_pow_pos 32)) x hx (by simpa using hna)
  simpa [newSubsection] using And.intro ho hs

/-- The subsections of a regular section tile it, when the section fits in 32 bits, its
symbols lie within it and none at its start is an alt entry. -/
theorem splitSubsectionsViaSymbols_tiles {obj : MachObject} {st : SplitState}
    (h : splitSubsectionsViaSymbols obj = .ok st) {j : Nat} {isec : InputSection}
    (hj : obj.sections[j]? = some (some isec))
    (hc : isec.hdr.matches "__TEXT" "__cstring" = false) (hs : isec.hdr.size < 2 ^ 32)
    (hin : ∀ msym ∈ obj.machSyms, msym.type = .sect → msym.sect = j + 1 →
      isec.hdr.addr ≤ msym.value ∧ msym.value ≤ isec.hdr.addr + isec.hdr.size)
    (halt : ∀ msym ∈ obj.machSyms, msym.type = .sect → msym.sect = j + 1 →
      msym.value = isec.hdr.addr → descHas msym.desc N_ALT_ENTRY = false) :
    Tiles 0 isec.hdr.size
      ((st.pool.filter (·.isec = j)).map fun s => (s.inputOffset, s.inputSize)) := by
  rw [splitSubsectionsViaSymbols_spans h hj hc]
  refine fixRegions_tiles hs _ (fun x hx => ?_) (fun x hx h0 => ?_)
  · obtain ⟨msym, hm, ht, hsect, hoff, -⟩ := mem_sectionRegions hx
    obtain ⟨hlo, hhi⟩ := hin msym hm ht hsect
    rw [hoff, wrapSub_eq_sub hlo (by omega)]
    omega
  · obtain ⟨msym, hm, ht, hsect, hoff, hx⟩ := mem_sectionRegions hx
    obtain ⟨hlo, hhi⟩ := hin msym hm ht hsect
    rw [hoff, wrapSub_eq_sub hlo (by omega)] at h0
    rw [hx]
    exact halt msym hm ht hsect (by omega)

/-- `__TEXT,__text` at `0x100` of size 16, with an extern function at its start and a
local label at `0x108`. -/
def labelledTextObject : MachObject where
  sections :=
    [some { hdr := { segname := "__TEXT", sectname := "__text", addr := 0x100, size := 16,
                     p2align := 0 } }]
  machSyms :=
    [{ isExtern := true, type := .sect, sect := 1, value := 0x100 },
     { type := .sect, sect := 1, value := 0x108 }]

theorem labelledText_tiles :
    ∃ st, splitSubsectionsViaSymbols labelledTextObject = .ok st ∧
      Tiles 0 16 ((st.pool.filter (·.isec = 0)).map fun s => (s.inputOffset, s.inputSize)) := by
  obtain ⟨st, h⟩ : ∃ st, splitSubsectionsViaSymbols labelledTextObject = .ok st := ⟨_, rfl⟩
  exact ⟨st, h, splitSubsectionsViaSymbols_tiles h (j := 0) rfl rfl (by decide) (by decide)
    (by decide)⟩

/-- The splitter's subsections come with empty unwind spans, as `parse_compact_unwind`
expects them. -/
theorem splitSubsectionsViaSymbols_fresh {obj : MachObject} {st : SplitState}
    (h : splitSubsectionsViaSymbols obj = .ok st) : ∀ x ∈ st.pool, x.nunwind = 0 := by
  obtain ⟨st1, h1, h2⟩ := except_bind_eq_ok.mp h
  obtain ⟨extra, hpool, hextra⟩ := foldlM_splitCstringSection_pool h2
  rw [hpool, foldlM_splitSection_pool h1]
  intro x hx
  simp only [List.nil_append, List.mem_append, List.mem_flatMap] at hx
  rcases hx with ⟨⟨j, isec, r⟩, -, hx⟩ | hx
  · simp only [regionSubsections, List.mem_map] at hx
    obtain ⟨_, -, rfl⟩ := hx
    rfl
  · exact (hextra x hx).1

theorem initSubsections_fresh (obj : MachObject) :
    ∀ x ∈ (initSubsections obj).pool, x.nunwind = 0 := by
  simp only [initSubsections, List.mem_map]
  rintro x ⟨_, -, rfl⟩
  rfl

/-- Without `MH_SUBSECTIONS_VIA_SYMBOLS`, every `N_SECT` symbol of a section that has an
`InputSection` is bound to that section's one subsection, which covers the whole
section. -/
theorem initSubsections_binds {obj : MachObject} {k j : Nat} {msym : MachSym}
    {isec : InputSection} (hk : obj.machSyms[k]? = some msym) (ht : msym.type = .sect)
    (hj : msym.sect = j + 1) (hsec : obj.sections[j]? = some (some isec)) :
    ∃ t, (initSubsections obj).symToSubsec[k]? = some (some t) ∧
      (initSubsections obj).pool[t]? = some
        { isec := j, inputOffset := 0, inputSize := isec.hdr.size % 2 ^ 32,
          inputAddr := isec.hdr.addr % 2 ^ 32, p2align := isec.hdr.p2align % 2 ^ 8 } := by
  have hmem : (j, isec) ∈ presentSections obj :=
    List.mem_filterMap.mpr ⟨(j, some isec), List.mem_enum_iff_getElem?.mpr hsec, rfl⟩
  obtain ⟨t, hfind⟩ : ∃ t, (presentSections obj).findIdx? (·.1 + 1 = msym.sect) = some t :=
    ⟨_, List.findIdx?_eq_some_of_exists ⟨(j, isec), hmem, by simp [hj]⟩⟩
  obtain ⟨y, hy, hpy⟩ : ∃ y, (presentSections obj)[t]? = some y ∧ y.1 + 1 = msym.sect :=
    let ⟨hlt, hp, _⟩ := List.findIdx?_eq_some_iff_getElem.mp hfind
    ⟨_, List.getElem?_eq_getElem hlt, by simpa using hp⟩
  -- the section found is section `j` itself
  obtain ⟨⟨j', s'⟩, hm', hs'⟩ := List.mem_filterMap.mp (List.getElem?_mem hy)
  cases s' with
  | none => cases hs'
  | some isec' =>
    cases hs'
    obtain rfl : j' = j := by simp only at hpy; omega
    rw [List.mem_enum_iff_getElem?, hsec] at hm'
    cases hm'
    refine ⟨t, ?_, ?_⟩
    · simp [initSubsections, hk, ht, hfind]
    · simp [initSubsections, hy]

/-! ### The `__cstring` pieces -/

section Cstring

variable {s : List UInt8} {pos e : Nat}

theorem findIdx?_drop_some {p : UInt8 → Bool} {i : Nat} (h : (s.drop pos).findIdx? p = some i) :
    ∃ b, s[i + pos]? = some b ∧ p b = true ∧
      ∀ k, pos ≤ k → k < i + pos → ∃ c, s[k]? = some c ∧ p c = false := by
  obtain ⟨hlt, hp, hmin⟩ := List.findIdx?_eq_some_iff_getElem.mp h
  refine ⟨_, by rw [Nat.add_comm, ← List.getElem?_drop, List.getElem?_eq_getElem hlt], hp,
    fun k hk1 hk2 => ?_⟩
  have hj : k - pos < (s.drop pos).length := by omega
  refine ⟨(s.drop pos)[k - pos], ?_, by simpa using hmin (k - pos) (by omega)⟩
  rw [← List.getElem?_eq_getElem hj, List.getElem?_drop, Nat.add_sub_cancel' hk1]

theorem findIdx?_drop_none {p : UInt8 → Bool} (h : (s.drop pos).findIdx? p = none) :
    ∀ k b, pos ≤ k → s[k]? = some b → p b = false := by
  intro k b hk hb
  have hm : b ∈ s.drop pos := List.mem_iff_getElem?.mpr
    ⟨k - pos, by rw [List.getElem?_drop, Nat.add_sub_cancel' hk, hb]⟩
  simpa using List.findIdx?_eq_none_iff.mp h b hm

theorem findNul_some (h : findNul s pos = some e) :
    pos ≤ e ∧ s[e]? = some 0 ∧ ∀ k, pos ≤ k → k < e → ∃ c, s[k]? = some c ∧ c ≠ 0 := by
  obtain ⟨i, hi, rfl⟩ := Option.map_eq_some'.mp h
  obtain ⟨b, hb, hb0, hbefore⟩ := findIdx?_drop_some hi
  simp only [decide_eq_true_eq] at hb0
  exact ⟨Nat.le_add_left _ _, hb0 ▸ hb, fun k hk1 hk2 => by simpa using hbefore k hk1 hk2⟩

theorem findNul_none (h : findNul s pos = none) : ∀ k, pos ≤ k → s[k]? ≠ some 0 :=
  fun k hk h0 => by simpa using findIdx?_drop_none (Option.map_eq_none'.mp h) k 0 hk h0

theorem findNotNul_some (h : findNotNul s pos = some e) :
    pos ≤ e ∧ (∃ c, s[e]? = some c ∧ c ≠ 0) ∧ ∀ k, pos ≤ k → k < e → s[k]? = some 0 := by
  obtain ⟨i, hi, rfl⟩ := Option.map_eq_some'.mp h
  obtain ⟨b, hb, hb0, hbefore⟩ := findIdx?_drop_some hi
  refine ⟨Nat.le_add_left _ _, ⟨b, hb, by simpa using hb0⟩, fun k hk1 hk2 => ?_⟩
  obtain ⟨c, hc, hc0⟩ := hbefore k hk1 hk2
  simpa using hc.trans (by simpa using hc0)

theorem findNotNul_none (h : findNotNul s pos = none) :
    ∀ k, pos ≤ k → k < s.length → s[k]? = some 0 := fun k hk hks => by
  have hc := List.getElem?_eq_getElem hks
  simpa [hc] using findIdx?_drop_none (Option.map_eq_none'.mp h) k _ hk hc

/-- `[o, o + n)` of `s` is a run of non-NUL bytes `[o, m)`, possibly empty, followed by a
non-empty run of NULs `[m, o + n)` that ends at the end of `s` or at a non-NUL byte. -/
def CstringPiece (s : List UInt8) (o n : Nat) : Prop :=
  ∃ m, o ≤ m ∧ m < o + n ∧ (∀ k, o ≤ k → k < m → ∃ c, s[k]? = some c ∧ c ≠ 0) ∧
    (∀ k, m ≤ k → k < o + n → s[k]? = some 0) ∧ s[o + n]? ≠ some 0

/-- One iteration from `pos`: the piece runs to the end of the NUL run after the NUL that
`find` stops at, which is the end of the string only if the string ends in NUL. -/
theorem cstring_step (he : findNul s pos = some e) :
    pos < (findNotNul s e).getD s.length ∧ (findNotNul s e).getD s.length ≤ s.length ∧
      CstringPiece s pos ((findNotNul s e).getD s.length - pos) ∧
      ((findNotNul s e).getD s.length = s.length → s.getLast? = some 0) := by
  obtain ⟨hpe, he0, hbefore⟩ := findNul_some he
  have hlen : e < s.length := (List.getElem?_eq_some_iff.mp he0).1
  cases hnot : findNotNul s e with
  | none =>
    have hall := findNotNul_none hnot
    simp only [Option.getD_none]
    refine ⟨by omega, le_rfl, ⟨e, hpe, by omega, hbefore, fun k hk1 hk2 => hall k hk1 (by omega),
      ?_⟩, fun _ => ?_⟩
    · rw [Nat.add_sub_cancel' (by omega), List.getElem?_eq_none (Nat.le_refl _)]
      exact nofun
    · rw [List.getLast?_eq_getElem?]
      exact hall _ (by omega) (by omega)
  | some e' =>
    obtain ⟨hee, ⟨c, hc, hc0⟩, hnul⟩ := findNotNul_some hnot
    have he'len : e' < s.length := (List.getElem?_eq_some_iff.mp hc).1
    have hne : e ≠ e' := fun h => hc0 (Option.some.inj ((h ▸ hc).symm.trans (h ▸ he0)))
    simp only [Option.getD_some]
    refine ⟨by omega, by omega, ⟨e, hpe, by omega, hbefore, fun k hk1 hk2 => hnul k hk1 (by omega),
      ?_⟩, fun h => absurd h (by omega)⟩
    rw [Nat.add_sub_cancel' (by omega), hc]
    simpa using hc0

/-- What the `__cstring` loop from `pos` gives: when the string ends in NUL (or nothing is
left), pieces that tile `[pos, |s|)`, each of the shape above, with its alignment inferred
from its offset; when it does not, `corruptedCstring`. -/
def CstringResult (s : List UInt8) (p2align pos : Nat) :
    Except SplitError (List (Nat × Nat × Nat)) → Prop
  | .ok pieces => (pos < s.length → s.getLast? = some 0) ∧
      Tiles pos s.length (pieces.map fun p => (p.1, p.2.1)) ∧
      ∀ p ∈ pieces, CstringPiece s p.1 p.2.1 ∧ p.2.2 = min (p2align % 2 ^ 8) (countrZero p.1)
  | .error e => e = .corruptedCstring ∧ pos < s.length ∧ s.getLast? ≠ some 0

/-- The loop from any `pos` in the string, given more steps than bytes left: each
iteration moves `pos` forward, so the bound never runs out. -/
theorem splitCstring_spec (p2align : Nat) :
    ∀ steps pos, pos ≤ s.length → s.length - pos < steps →
      CstringResult s p2align pos (splitCstring s p2align steps pos)
  | 0, _, _, h => absurd h (Nat.not_lt_zero _)
  | steps + 1, pos, hle, hsteps => by
    unfold splitCstring
    by_cases hpos : pos < s.length
    · rw [if_pos hpos]
      cases hnul : findNul s pos with
      | none =>
        dsimp only
        refine ⟨rfl, hpos, ?_⟩
        rw [List.getLast?_eq_getElem?]
        exact findNul_none hnul _ (by omega)
      | some e =>
        dsimp only
        obtain ⟨hlt, hle', hpiece, hlast⟩ := cstring_step hnul
        have ih := splitCstring_spec p2align steps _ hle' (by omega)
        generalize splitCstring s p2align steps ((findNotNul s e).getD s.length) = r at ih ⊢
        cases r with
        | error err => exact ⟨ih.1, hpos, ih.2.2⟩
        | ok pieces =>
          dsimp only [Except.map]
          obtain ⟨hlast', htiles, hpieces⟩ := ih
          refine ⟨fun _ => ?_, ⟨rfl, by rwa [Nat.add_sub_cancel' (Nat.le_of_lt hlt)]⟩, ?_⟩
          · rcases Nat.lt_or_ge ((findNotNul s e).getD s.length) s.length with h | h
            · exact hlast' h
            · exact hlast (by omega)
          · rintro p (_ | ⟨_, hp⟩)
            · exact ⟨hpiece, rfl⟩
            · exact hpieces p hp
    · rw [if_neg hpos]
      exact ⟨fun h => absurd h hpos, show pos = s.length by omega, fun _ h => absurd h nofun⟩

theorem two_pow_countrZero_go_dvd : ∀ k n, 2 ^ countrZero.go k n ∣ n
  | 0, _ => by simp [countrZero.go]
  | k + 1, n => by
    unfold countrZero.go
    split
    · rename_i h
      calc 2 ^ (countrZero.go k (n / 2) + 1) = 2 ^ countrZero.go k (n / 2) * 2 := Nat.pow_succ _ _
        _ ∣ n / 2 * 2 := Nat.mul_dvd_mul_right (two_pow_countrZero_go_dvd k (n / 2)) 2
        _ = n := Nat.div_mul_cancel (Nat.dvd_of_mod_eq_zero h)
    · simp

/-- `2 ^ countr_zero(n)` divides `n`, also for `n = 0`, where `countr_zero` is 64. -/
theorem two_pow_countrZero_dvd (n : Nat) : 2 ^ countrZero n ∣ n := by
  unfold countrZero
  split
  · exact Nat.dvd_of_mod_eq_zero ‹_›
  · exact two_pow_countrZero_go_dvd 64 n

theorem countrZero_zero : countrZero 0 = 64 := rfl

/-- For every `__TEXT,__cstring` section the splitting loop ends: it fails, with
`corrupted __TEXT,__cstring`, exactly when the contents are non-empty and do not end in
NUL.  Otherwise, when the contents are shorter than `2 ^ 32` bytes (offsets and sizes
pass through the `u32` parameters of `add`), the subsections it adds tile the contents,
each a run of non-NUL bytes
followed by a maximal non-empty run of NULs, with `p2align = min(p2align, countr_zero
(input_offset))`, so `2 ^ p2align` divides the offset; at offset 0, where `countr_zero`
is 64, that is `min(p2align, 64)`. -/
theorem split_cstring_section_spec (st : SplitState) (j : Nat) (isec : InputSection)
    (hc : isec.hdr.matches "__TEXT" "__cstring" = true) :
    ((∃ e, splitCstringSection st (j, some isec) = .error e) ↔
        isec.contents ≠ [] ∧ isec.contents.getLast? ≠ some 0) ∧
    (∀ e, splitCstringSection st (j, some isec) = .error e → e = .corruptedCstring) ∧
    (isec.contents.length < 2 ^ 32 → ∀ st', splitCstringSection st (j, some isec) = .ok st' →
      ∃ pieces, st'.pool = st.pool ++ pieces ∧
        Tiles 0 isec.contents.length (pieces.map fun x => (x.inputOffset, x.inputSize)) ∧
        ∀ x ∈ pieces, x.isec = j ∧ CstringPiece isec.contents x.inputOffset x.inputSize ∧
          x.p2align = min (isec.hdr.p2align % 2 ^ 8) (countrZero x.inputOffset) ∧
          2 ^ x.p2align ∣ x.inputOffset ∧
          (x.inputOffset = 0 → x.p2align = min (isec.hdr.p2align % 2 ^ 8) 64)) := by
  have hspec := splitCstring_spec (s := isec.contents) isec.hdr.p2align
    (isec.contents.length + 1) 0 (Nat.zero_le _) (by omega)
  simp only [splitCstringSection, if_pos hc]
  generalize splitCstring isec.contents isec.hdr.p2align (isec.contents.length + 1) 0 = r at hspec
  cases r with
  | error err =>
    dsimp only [Except.map]
    obtain ⟨rfl, hpos, hlast⟩ := hspec
    exact ⟨iff_of_true ⟨_, rfl⟩ ⟨List.ne_nil_of_length_pos hpos, hlast⟩,
      fun e he => (Except.error.inj he).symm, fun _ _ h => (by cases h)⟩
  | ok pieces =>
    dsimp only [Except.map]
    obtain ⟨hlast, htiles, hpieces⟩ := hspec
    refine ⟨iff_of_false (by rintro ⟨_, h⟩; cases h) fun ⟨hne, hl⟩ =>
      hl (hlast (List.length_pos.mpr hne)), fun _ h => (by cases h), fun hlen st' h => ?_⟩
    cases h
    -- pieces end within the contents, so the `u32` parameters of `add` keep them
    have hfit : ∀ p ∈ pieces, p.1 < 2 ^ 32 ∧ p.2.1 < 2 ^ 32 := fun p hp => by
      have := htiles.add_le _ (List.mem_map_of_mem (fun p => (p.1, p.2.1)) hp)
      dsimp only at this
      omega
    refine ⟨_, foldl_add_pool j isec pieces st, ?_, ?_⟩
    · convert htiles using 1
      rw [List.map_map]
      refine List.map_congr_left fun ⟨o, n, a⟩ hp => ?_
      simpa [newSubsection] using hfit _ hp
    simp only [List.mem_map]
    rintro x ⟨⟨o, n, a⟩, hp, rfl⟩
    obtain ⟨hpiece, ha⟩ := hpieces _ hp
    obtain ⟨ho, hn⟩ := hfit _ hp
    dsimp only at hpiece ha ho hn
    subst ha
    simp only [newSubsection, Nat.mod_eq_of_lt ho, Nat.mod_eq_of_lt hn, true_and]
    exact ⟨hpiece, Nat.dvd_trans (Nat.pow_dvd_pow 2 (min_le_right _ _))
      (two_pow_countrZero_dvd o), fun h0 => by rw [h0, countrZero_zero]⟩

/-- A `__cstring` section of alignment `2 ^ 100` holding one empty string. -/
def highAlignCstring : InputSection where
  hdr := { segname := "__TEXT", sectname := "__cstring", addr := 0, size := 1, p2align := 100 }
  contents := [0]

/-- The piece at offset 0 gets `min(100, countr_zero(0)) = 64`, not the section's
alignment. -/
theorem cstring_offset_zero_alignment_capped :
    (splitCstringSection { pool := [], symToSubsec := [] } (0, some highAlignCstring)).map
      (fun st => st.pool.map fun x => (x.inputOffset, x.p2align)) = .ok [(0, 64)] := rfl

theorem split_cstring_high_align_tiles :
    ∃ st', splitCstringSection { pool := [], symToSubsec := [] } (0, some highAlignCstring) =
        .ok st' ∧
      ∃ pieces, st'.pool = [] ++ pieces ∧
        Tiles 0 1 (pieces.map fun x => (x.inputOffset, x.inputSize)) ∧
        ∀ x ∈ pieces, CstringPiece [0] x.inputOffset x.inputSize ∧ 2 ^ x.p2align ∣ x.inputOffset := by
  have h : splitCstringSection { pool := [], symToSubsec := [] } (0, some highAlignCstring) =
      .ok _ := rfl
  obtain ⟨pieces, hp, ht, hx⟩ :=
    (split_cstring_section_spec _ 0 highAlignCstring rfl).2.2 (by decide) _ h
  exact ⟨_, h, pieces, hp, ht, fun x hx' => ⟨(hx x hx').2.1, (hx x hx').2.2.2.1⟩⟩

end Cstring

/-! ### Layouts the splitter does not cover -/

/-- `__TEXT,__text` at address 0 with a symbol at its start, then `__TEXT,__const` at
address 16 whose two symbols sit at its start: an alt entry, listed first, and a plain
one. -/
def altEntryFirstObject : MachObject where
  sections :=
    [some { hdr := { segname := "__TEXT", sectname := "__text", addr := 0, size := 16,
                     p2align := 0 } },
     some { hdr := { segname := "__TEXT", sectname := "__const", addr := 16, size := 16,
                     p2align := 0 } }]
  machSyms :=
    [{ isExtern := true, type := .sect, sect := 1, value := 0 },
     { isExtern := true, type := .sect, sect := 2, value := 16, desc := N_ALT_ENTRY },
     { isExtern := true, type := .sect, sect := 2, value := 16 }]

/-- The plain symbol of `__const` is promoted after the alt entry sorted before it, so
`__const` gets no subsection, and both its symbols are bound to the subsection of
`__text`, the last one created. -/
theorem split_alt_entry_first_uncovered :
    (splitSubsectionsViaSymbols altEntryFirstObject).map
        (fun st => (st.pool.map fun s => (s.isec, s.inputOffset, s.inputSize), st.symToSubsec)) =
      .ok ([(0, 0, 16)], [some 0, some 0, some 0]) := rfl

/-- A `__cstring` section holding `"hi"` with an extern label at its start. -/
def cstringLabelObject : MachObject where
  sections :=
    [some { hdr := { segname := "__TEXT", sectname := "__cstring", addr := 0, size := 3,
                     p2align := 0 },
            contents := [104, 105, 0] }]
  machSyms := [{ isExtern := true, type := .sect, sect := 1, value := 0 }]

/-- The label gets no region, so its `sym_to_subsec` entry stays null although the string
has a subsection, and `resolve_symbols` on the object alone reaches the null
subsection. -/
theorem cstring_label_null_subsection :
    ∃ st, splitSubsectionsViaSymbols cstringLabelObject = .ok st ∧
      st.pool.map (fun s => (s.isec, s.inputOffset, s.inputSize)) = [(0, 0, 3)] ∧
      st.symToSubsec = [none] ∧
      (cstringLabelObject.toObjectFile st 1 id).resolveSymbols
        ⟨fun _ => .object (cstringLabelObject.toObjectFile st 1 id), fun _ => true⟩ 0 .fresh =
        .error .nullSubsection :=
  ⟨_, rfl, rfl, rfl, rfl⟩

end SoldMacho
