import SoldMacho.Parse

/-!
# Which subsection a symbol is bound to

`split_subsections_via_symbols` and `init_subsections` fill `sym_to_subsec`, and
`fix_subsec_members` turns it into each local symbol's `(subsec, value)`.  This module
follows one symbol through the splitter: its region is sorted, promoted over alt
entries and given a size (`fixRegions_binds`), the region loop binds it to the last
subsection created (`splitSubsectionsViaSymbols_binds`), and whichever splitter ran, the
subsection it is bound to belongs to its section and holds its address, the end
included (`makeSubsections_within`).

Both need the object's symbols to lie in their sections, as a well-formed object's do
(`SectionsFit`).  The module does not cover `__TEXT,__cstring` with the subsections flag,
whose labels `sym_to_subsec` leaves null, nor labels of sections without an
`InputSection`: `fix_subsec_members` binds those through `find_subsection`, whose
result the unwind and parse modules describe.
-/

namespace SoldMacho

section Binding

variable {j : Nat} {isec : InputSection}

/-- Symbol `k` is bound (`sym_to_subsec[k]`) to a subsection of section `j`, at address
`addr`, whose range holds offset `o`, its end included: a label may mark the end of its
subsection. -/
def BoundIn (st : SplitState) (k j addr o : Nat) : Prop :=
  ∃ p s, st.symToSubsec[k]? = some (some p) ∧ st.pool[p]? = some s ∧ s.isec = j ∧
    s.inputAddr = (addr + s.inputOffset) % 2 ^ 32 ∧ s.inputOffset ≤ o ∧ o ≤ s.inputOffset + s.inputSize

theorem BoundIn.mono {st st' : SplitState} {k addr o : Nat} (hb : BoundIn st k j addr o)
    (hp : ∃ extra, st'.pool = st.pool ++ extra)
    (hk : st'.symToSubsec[k]? = st.symToSubsec[k]?) : BoundIn st' k j addr o := by
  obtain ⟨p, s, hsym, hs, hrest⟩ := hb
  obtain ⟨extra, hpool⟩ := hp
  have hlt : p < st.pool.length := (List.getElem?_eq_some_iff.mp hs).1
  exact ⟨p, s, hk ▸ hsym, by rw [hpool, List.getElem?_append_left hlt, hs], hrest⟩

/-- What one region does to `sym_to_subsec`: a symbol's region binds the symbol to the
last subsection, which exists. -/
theorem splitRegion_symToSubsec {st st' : SplitState} {r : SplitRegion}
    (h : splitRegion j isec st r = .ok st') :
    (r.symidx = none → st'.symToSubsec = st.symToSubsec) ∧
    ∀ k, r.symidx = some k → 0 < st'.pool.length ∧
      st'.symToSubsec = st.symToSubsec.set k (some (st'.pool.length - 1)) := by
  have hp := splitRegion_pool h
  unfold splitRegion at h
  cases hk : r.symidx with
  | none =>
    simp only [hk] at h
    cases h
    refine ⟨fun _ => ?_, fun _ h => nomatch h⟩
    split <;> rfl
  | some k =>
    refine ⟨nofun, fun k' hk' => ?_⟩
    cases hk'
    cases halt : r.isAltEntry <;>
      simp only [hk, halt, Bool.false_eq_true, if_true, if_false] at h <;>
      split at h <;> cases h <;> exact ⟨Nat.pos_of_ne_zero ‹_›, rfl⟩

theorem foldlM_splitRegion_frame : ∀ {L : List SplitRegion} {st st' : SplitState},
    L.foldlM (splitRegion j isec) st = .ok st' →
      (∃ extra, st'.pool = st.pool ++ extra) ∧ st'.symToSubsec.length = st.symToSubsec.length ∧
      ∀ k, k ∉ L.filterMap (·.symidx) → st'.symToSubsec[k]? = st.symToSubsec[k]?
  | [], _, _, h => by cases h; exact ⟨⟨[], by simp⟩, rfl, fun _ _ => rfl⟩
  | r :: L, st, st', h => by
    obtain ⟨st1, h1, h2⟩ := except_bind_eq_ok.mp h
    obtain ⟨⟨e2, hp2⟩, hl2, hk2⟩ := foldlM_splitRegion_frame h2
    obtain ⟨hnone, hsome⟩ := splitRegion_symToSubsec h1
    have hp1 := splitRegion_pool h1
    refine ⟨⟨_, by rw [hp2, hp1, List.append_assoc]⟩, ?_, fun k hk => ?_⟩
    · rw [hl2]
      cases hr : r.symidx with
      | none => rw [hnone hr]
      | some k => rw [(hsome k hr).2, List.length_set]
    · rw [List.filterMap_cons] at hk
      rw [hk2 k fun h => hk (by cases r.symidx <;> simp [h])]
      cases hr : r.symidx with
      | none => rw [hnone hr]
      | some k' =>
        have hne : k' ≠ k := fun h => hk (by simp [hr, h])
        rw [(hsome k' hr).2, List.getElem?_set_ne hne]

theorem closeSizes_symidx (size : Nat) :
    ∀ l : List SplitRegion, (closeSizes size l).filterMap (·.symidx) = l.filterMap (·.symidx)
  | [] => rfl
  | r :: l => by
    unfold closeSizes
    split <;> simp only [List.filterMap_cons, closeSizes_symidx size l]

theorem promoteFrom_symidx :
    ∀ (p : Option SplitRegion) (r : List SplitRegion),
      (promoteFrom p r).map (·.symidx) = r.map (·.symidx)
  | p, [] => by cases p <;> rfl
  | none, b :: rest => by simp [promoteFrom, promoteFrom_symidx _ rest]
  | some a, b :: rest => by
    unfold promoteFrom
    split <;> simp [promoteFrom_symidx _ rest]

theorem filterMap_symidx_congr {l l' : List SplitRegion} (h : l.map (·.symidx) = l'.map (·.symidx)) :
    l.filterMap (·.symidx) = l'.filterMap (·.symidx) := by
  simpa [List.filterMap_map] using congrArg (List.filterMap id) h

/-- Promotion changes only alt-entry bits: each region is still there, at its offset and
with its symbol. -/
theorem mem_promoteFrom :
    ∀ (p : Option SplitRegion) (r : List SplitRegion), ∀ y ∈ r,
      ∃ z ∈ promoteFrom p r, z.offset = y.offset ∧ z.symidx = y.symidx
  | _, [], _, hy => absurd hy (List.not_mem_nil _)
  | p, b :: rest, y, hy => by
    have key : ∃ b', promoteFrom p (b :: rest) = b' :: promoteFrom
          (if p.isSome ∧ (p.map (·.offset) = some b.offset) then none else some b) rest ∧
        b'.offset = b.offset ∧ b'.symidx = b.symidx := by
      cases p with
      | none => exact ⟨b, rfl, rfl, rfl⟩
      | some a =>
        by_cases hab : a.offset = b.offset
        · exact ⟨{ b with isAltEntry := true }, by simp [promoteFrom, hab], rfl, rfl⟩
        · exact ⟨b, by simp [promoteFrom, hab], rfl, rfl⟩
    obtain ⟨b', hb', ho, hs⟩ := key
    rw [hb']
    rcases List.mem_cons.mp hy with rfl | hy
    · exact ⟨b', List.mem_cons_self _ _, ho, hs⟩
    · obtain ⟨z, hz, hzo, hzs⟩ := mem_promoteFrom _ rest y hy
      exact ⟨z, List.mem_cons_of_mem _ hz, hzo, hzs⟩

/-- The closing pass keeps each region in place and sets only the size of a
non-alt-entry region. -/
theorem closeSizes_cons (size : Nat) (x : SplitRegion) (rest : List SplitRegion) :
    closeSizes size (x :: rest) =
      (if x.isAltEntry then x else { x with size := wrapSub 32 (nextStart size rest) x.offset }) ::
        closeSizes size rest := by
  rw [closeSizes.eq_2]
  split <;> rfl

/-- The closing pass then the region loop, on regions sorted and within a section of
size `size < 2 ^ 32`: each region's symbol is bound to the subsection of the last
non-alt-entry region at or before it, which holds the region's offset.  Leading
alt-entry regions join the subsection created last, which must hold them. -/
theorem closeSizes_binds {size : Nat} (hs : size < 2 ^ 32) :
    ∀ (P : List SplitRegion) {st st' : SplitState},
      (P.map (·.offset)).Sorted (· ≤ ·) → (∀ o ∈ P.map (·.offset), o ≤ size) →
      (P.filterMap (·.symidx)).Nodup →
      (∀ k ∈ P.filterMap (·.symidx), k < st.symToSubsec.length) →
      (∀ x ∈ P.head?, x.isAltEntry = true → ∃ c, st.pool.getLast? = some c ∧ c.isec = j ∧
        c.inputAddr = (isec.hdr.addr + c.inputOffset) % 2 ^ 32 ∧
        c.inputOffset ≤ x.offset ∧ nextStart size P ≤ c.inputOffset + c.inputSize) →
      (closeSizes size P).foldlM (splitRegion j isec) st = .ok st' →
      ∀ x ∈ P, ∀ k, x.symidx = some k → BoundIn st' k j isec.hdr.addr x.offset := by
  intro P
  induction P with
  | nil => exact fun _ _ _ _ _ _ _ hx => absurd hx (List.not_mem_nil _)
  | cons x rest ih =>
    intro st st' hsort hle hnd hlen hhead h
    rw [List.map_cons, List.sorted_cons] at hsort
    rw [List.map_cons, List.forall_mem_cons] at hle
    have hlo : x.offset ≤ nextStart size rest := le_nextStart hle.1 rest hsort.1
    have hhi : nextStart size rest ≤ size := nextStart_le size rest hle.2
    rw [closeSizes_cons] at h
    obtain ⟨st1, h1, h2⟩ := except_bind_eq_ok.mp h
    obtain ⟨hp2, -, hk2⟩ := foldlM_splitRegion_frame h2
    obtain ⟨hnone, hsome⟩ := splitRegion_symToSubsec h1
    have hpool := splitRegion_pool h1
    -- the subsection that region `x` leaves current, which holds everything up to the
    -- next non-alt-entry region
    have hcur : ∃ c, st1.pool.getLast? = some c ∧ c.isec = j ∧
        c.inputAddr = (isec.hdr.addr + c.inputOffset) % 2 ^ 32 ∧ c.inputOffset ≤ x.offset ∧
        nextStart size rest ≤ c.inputOffset + c.inputSize := by
      cases halt : x.isAltEntry
      · simp only [halt, Bool.false_eq_true, if_false] at hpool
        have hx32 : x.offset % 2 ^ 32 = x.offset := Nat.mod_eq_of_lt (by omega)
        refine ⟨_, by rw [hpool, List.getLast?_append, List.getLast?_singleton]; rfl, rfl, rfl,
          Nat.le_of_eq hx32, ?_⟩
        show nextStart size rest ≤
          x.offset % 2 ^ 32 + wrapSub 32 (nextStart size rest) x.offset % 2 ^ 32
        rw [hx32, wrapSub_of_le hlo (by omega), Nat.mod_eq_of_lt (by omega)]
        omega
      · simp only [halt, if_true, List.append_nil] at hpool
        obtain ⟨c, hc, hcj, hca, hco, hce⟩ := hhead x rfl halt
        rw [nextStart, if_pos halt] at hce
        exact ⟨c, hpool ▸ hc, hcj, hca, hco, hce⟩
    have hsym : ∀ k, x.symidx = some k → BoundIn st1 k j isec.hdr.addr x.offset := by
      intro k hk
      obtain ⟨c, hc, hcj, hca, hco, hce⟩ := hcur
      have hk' : (if x.isAltEntry then x
          else { x with size := wrapSub 32 (nextStart size rest) x.offset }).symidx = some k := by
        split <;> exact hk
      obtain ⟨hpos, hset⟩ := hsome k hk'
      have hklt : k < st.symToSubsec.length :=
        hlen k (by rw [List.filterMap_cons_some hk]; exact List.mem_cons_self _ _)
      refine ⟨_, c, by rw [hset, List.getElem?_set_self hklt], ?_, hcj, hca, hco, by omega⟩
      rw [← List.getLast?_eq_getElem?, hc]
    intro y hy k hk
    have hsub := (List.sublist_cons_self x rest).filterMap (·.symidx)
    rcases List.mem_cons.mp hy with rfl | hy
    · rw [List.filterMap_cons_some hk] at hnd
      refine (hsym k hk).mono hp2 (hk2 k ?_)
      rw [closeSizes_symidx]
      exact (List.nodup_cons.mp hnd).1
    · have hl1 : st1.symToSubsec.length = st.symToSubsec.length := by
        cases hx : x.symidx with
        | none => rw [hnone (by split <;> exact hx)]
        | some k'' => rw [(hsome k'' (by split <;> exact hx)).2, List.length_set]
      have hlen' : ∀ k ∈ rest.filterMap (·.symidx), k < st1.symToSubsec.length :=
        fun k' hk' => hl1 ▸ hlen k' (hsub.subset hk')
      refine ih hsort.2 hle.2 (hsub.nodup hnd) hlen' (fun z hz halt => ?_) h2 y hy k hk
      obtain ⟨c, hc, hcj, hca, hco, hce⟩ := hcur
      have hz' : z ∈ rest := List.mem_of_mem_head? hz
      exact ⟨c, hc, hcj, hca, Nat.le_trans hco (hsort.1 _ (List.mem_map_of_mem _ hz')), hce⟩

/-- The regions of one section, fixed and split: when no alt-entry region sits at offset
0, every symbol with a region is bound to a subsection of the section that holds the
symbol's offset. -/
theorem fixRegions_binds {size : Nat} (hs : size < 2 ^ 32) (r : List SplitRegion)
    (hle : ∀ x ∈ r, x.offset ≤ size) (halt : ∀ x ∈ r, x.offset = 0 → x.isAltEntry = false)
    (hnd : (r.filterMap (·.symidx)).Nodup) {st st' : SplitState}
    (hlen : ∀ k ∈ r.filterMap (·.symidx), k < st.symToSubsec.length)
    (h : (fixRegions size r).foldlM (splitRegion j isec) st = .ok st') :
    ∀ x ∈ r, ∀ k, x.symidx = some k → BoundIn st' k j isec.hdr.addr x.offset := by
  have hperm : (sortRegions r).Perm r := List.perm_insertionSort _ r
  have hsorted : ((sortRegions r).map (·.offset)).Sorted (· ≤ ·) := List.pairwise_map.mpr
    (List.sorted_insertionSort (fun a b : SplitRegion => a.offset ≤ b.offset) r)
  intro x hx k hk
  have hxs := hperm.symm.subset hx
  unfold fixRegions at h
  split at h
  · rename_i hnil
    rw [hnil] at hxs
    exact absurd hxs (List.not_mem_nil _)
  rename_i r0 rs hsr
  rw [hsr] at hsorted hxs
  have hr0 : r0 ∈ r := hperm.subset (hsr ▸ List.mem_cons_self _ _)
  -- the list before promotion: a gap region at 0 when the first symbol is above it
  obtain ⟨Q, hQ, hQsort, hQle, hQsym, hQhead, hxQ⟩ : ∃ Q : List SplitRegion,
      (if 0 < r0.offset then
        { offset := 0, size := r0.offset, symidx := none, isAltEntry := false } :: r0 :: rs
       else r0 :: rs) = Q ∧ (Q.map (·.offset)).Sorted (· ≤ ·) ∧
      (∀ o ∈ Q.map (·.offset), o ≤ size) ∧
      Q.filterMap (·.symidx) = (r0 :: rs).filterMap (·.symidx) ∧
      (∃ q t, Q = q :: t ∧ q.isAltEntry = false) ∧ x ∈ Q := by
    have hle' : ∀ o ∈ (r0 :: rs).map (·.offset), o ≤ size := by
      intro o ho
      obtain ⟨y, hy, rfl⟩ := List.mem_map.mp ho
      exact hle y (hperm.subset (hsr ▸ hy))
    split
    · exact ⟨_, rfl, List.sorted_cons.mpr ⟨fun b _ => Nat.zero_le b, hsorted⟩,
        fun o ho => (List.mem_cons.mp ho).elim (fun h => h ▸ Nat.zero_le _) (hle' o),
        rfl, ⟨_, _, rfl, rfl⟩, List.mem_cons_of_mem _ hxs⟩
    · exact ⟨_, rfl, hsorted, hle', rfl, ⟨r0, rs, rfl, halt r0 hr0 (by omega)⟩, hxs⟩
  rw [hQ] at h
  obtain ⟨q, t, rfl, hq⟩ := hQhead
  have hoff := promoteFrom_offsets none (q :: t)
  have hsym := filterMap_symidx_congr (promoteFrom_symidx none (q :: t))
  have hrsym : ((r0 :: rs).filterMap (·.symidx)).Perm (r.filterMap (·.symidx)) :=
    hsr ▸ hperm.filterMap _
  obtain ⟨z, hz, hzo, hzs⟩ := mem_promoteFrom none (q :: t) x hxQ
  rw [← hzo]
  refine closeSizes_binds hs (promoteAltEntries (q :: t)) (hoff ▸ hQsort) (hoff ▸ hQle) ?_ ?_
    ?_ h z hz k (hzs.trans hk)
  · rw [promoteAltEntries, hsym, hQsym]
    exact hrsym.nodup_iff.mpr hnd
  · intro k' hk'
    rw [promoteAltEntries, hsym, hQsym] at hk'
    exact hlen k' (hrsym.subset hk')
  · intro y hy hyalt
    simp only [promoteAltEntries, promoteFrom, List.head?_cons, Option.mem_def,
      Option.some.injEq] at hy
    rw [← hy, hq] at hyalt
    exact absurd hyalt Bool.false_ne_true

/-- The fixing loop keeps the symbols of the regions, adding only the gap region,
which has none. -/
theorem fixRegions_symidx (size : Nat) (r : List SplitRegion) :
    ((fixRegions size r).filterMap (·.symidx)).Perm (r.filterMap (·.symidx)) := by
  have hperm : ((sortRegions r).filterMap (·.symidx)).Perm (r.filterMap (·.symidx)) :=
    (List.perm_insertionSort _ r).filterMap _
  unfold fixRegions
  split
  · rename_i hnil
    rw [hnil] at hperm
    exact hperm
  · rename_i r0 rs hsr
    rw [hsr] at hperm
    rw [closeSizes_symidx, promoteAltEntries, filterMap_symidx_congr (promoteFrom_symidx none _)]
    split <;> exact hperm

/-- A symbol's region lies in the section its `n_sect` names. -/
theorem symidx_mem_sectionRegions {obj : MachObject} {j k : Nat} {x : SplitRegion}
    (hx : x ∈ sectionRegions obj isec j) (hk : x.symidx = some k) :
    ∃ msym, obj.machSyms[k]? = some msym ∧ msym.type = .sect ∧ msym.sect = j + 1 := by
  obtain ⟨⟨k', msym⟩, hk', hx⟩ := List.mem_flatMap.mp hx
  by_cases hsect : msym.type = .sect ∧ msym.sect = j + 1
  · simp only [symbolRegion, if_pos hsect, List.mem_singleton] at hx
    subst hx
    cases hk
    exact ⟨msym, List.mem_enum_iff_getElem?.mp hk', hsect⟩
  · simp [symbolRegion, hsect] at hx

/-- Symbol `k` of type `N_SECT` has a region in its section, at its offset. -/
theorem symbolRegion_mem {obj : MachObject} {j k : Nat} {msym : MachSym}
    (hk : obj.machSyms[k]? = some msym) (ht : msym.type = .sect) (hsect : msym.sect = j + 1) :
    { offset := wrapSub 32 msym.value isec.hdr.addr, symidx := some k,
      isAltEntry := descHas msym.desc N_ALT_ENTRY } ∈ sectionRegions obj isec j :=
  List.mem_flatMap.mpr ⟨(k, msym), List.mem_enum_iff_getElem?.mpr hk,
    by simp [symbolRegion, ht, hsect]⟩

/-- Each symbol-table entry gives a region to one section at most. -/
theorem sectionRegions_symidx_sublist (obj : MachObject) (j : Nat) :
    ((sectionRegions obj isec j).filterMap (·.symidx)).Sublist (List.range obj.machSyms.length) := by
  rw [← List.enum_map_fst obj.machSyms]
  unfold sectionRegions
  generalize obj.machSyms.enum = l
  induction l with
  | nil => exact .slnil
  | cons km l ih =>
    obtain ⟨k, msym⟩ := km
    rw [List.flatMap_cons, List.filterMap_append, List.map_cons]
    by_cases hsect : msym.type = .sect ∧ msym.sect = j + 1
    · simpa [symbolRegion, hsect] using ih.cons₂ k
    · simpa [symbolRegion, hsect] using ih.cons k

/-- Each section `split_regular_sections` returns is a present section other than
`__TEXT,__cstring`, with the fixed regions of its own symbols. -/
theorem of_mem_splitRegularSections {obj : MachObject} {j : Nat} {isec : InputSection}
    {R : List SplitRegion} (h : (j, isec, R) ∈ splitRegularSections obj) :
    obj.sections[j]? = some (some isec) ∧ isec.hdr.matches "__TEXT" "__cstring" = false ∧
      R = fixRegions isec.hdr.size (sectionRegions obj isec j) := by
  obtain ⟨⟨j', isec', r⟩, hm, he⟩ := List.mem_map.mp h
  have hm' := (List.perm_insertionSort _ _).subset hm
  obtain ⟨⟨j'', s⟩, hmem, hs⟩ := List.mem_filterMap.mp hm'
  cases he
  cases s with
  | none => cases hs
  | some isec'' =>
    simp only [splitInfo] at hs
    split at hs
    · cases hs
    · rename_i hc
      cases hs
      exact ⟨List.mem_enum_iff_getElem?.mp hmem, eq_false_of_ne_true hc, rfl⟩

theorem splitSection_frame {st st' : SplitState} {j : Nat} {isec : InputSection}
    {R : List SplitRegion} (h : splitSection st (j, isec, R) = .ok st') :
    (∃ extra, st'.pool = st.pool ++ extra) ∧ st'.symToSubsec.length = st.symToSubsec.length ∧
      ∀ k, k ∉ R.filterMap (·.symidx) → st'.symToSubsec[k]? = st.symToSubsec[k]? :=
  foldlM_splitRegion_frame h

theorem foldlM_splitSection_frame :
    ∀ {L : List (Nat × InputSection × List SplitRegion)} {st st' : SplitState},
      L.foldlM splitSection st = .ok st' →
        (∃ extra, st'.pool = st.pool ++ extra) ∧ st'.symToSubsec.length = st.symToSubsec.length ∧
        ∀ k, (∀ y ∈ L, k ∉ y.2.2.filterMap (·.symidx)) → st'.symToSubsec[k]? = st.symToSubsec[k]?
  | [], _, _, h => by cases h; exact ⟨⟨[], by simp⟩, rfl, fun _ _ => rfl⟩
  | (j, isec, R) :: L, st, st', h => by
    obtain ⟨st1, h1, h2⟩ := except_bind_eq_ok.mp h
    obtain ⟨⟨e1, hp1⟩, hl1, hk1⟩ := splitSection_frame h1
    obtain ⟨⟨e2, hp2⟩, hl2, hk2⟩ := foldlM_splitSection_frame h2
    refine ⟨⟨e1 ++ e2, by rw [hp2, hp1, List.append_assoc]⟩, hl2.trans hl1, fun k hk => ?_⟩
    rw [hk2 k fun y hy => hk y (List.mem_cons_of_mem _ hy),
      hk1 k (hk _ (List.mem_cons_self _ _))]

theorem foldl_add_symToSubsec (j : Nat) (isec : InputSection) :
    ∀ (pieces : List (Nat × Nat × Nat)) (st : SplitState),
      (pieces.foldl (fun st (o, n, a) => st.add j isec o n a) st).symToSubsec = st.symToSubsec
  | [], _ => rfl
  | (_, _, _) :: ps, _ => foldl_add_symToSubsec j isec ps _

/-- The `__cstring` part leaves `sym_to_subsec` alone. -/
theorem foldlM_splitCstringSection_symToSubsec :
    ∀ {l : List (Nat × Option InputSection)} {st st' : SplitState},
      l.foldlM splitCstringSection st = .ok st' → st'.symToSubsec = st.symToSubsec
  | [], _, _, h => by cases h; rfl
  | (j, s) :: _, st, _, h => by
    obtain ⟨st1, h1, h2⟩ := except_bind_eq_ok.mp h
    rw [foldlM_splitCstringSection_symToSubsec h2]
    cases s with
    | none => cases h1; rfl
    | some isec =>
      simp only [splitCstringSection] at h1
      split at h1
      · obtain ⟨pieces, -, rfl⟩ := except_map_eq_ok.mp h1
        exact foldl_add_symToSubsec j isec pieces st
      · cases h1; rfl

/-- `split_subsections_via_symbols` binds every `N_SECT` symbol of a regular section to a
subsection of that section whose range holds the symbol's offset, its end included,
when the section fits in 32 bits, its symbols lie within it and none at its start is an
alt entry. -/
theorem splitSubsectionsViaSymbols_binds {obj : MachObject} {st : SplitState}
    (h : splitSubsectionsViaSymbols obj = .ok st) {j k : Nat} {isec : InputSection}
    {msym : MachSym} (hk : obj.machSyms[k]? = some msym) (ht : msym.type = .sect)
    (hsect : msym.sect = j + 1) (hj : obj.sections[j]? = some (some isec))
    (hc : isec.hdr.matches "__TEXT" "__cstring" = false) (hs : isec.hdr.size < 2 ^ 32)
    (hin : ∀ m ∈ obj.machSyms, m.type = .sect → m.sect = j + 1 →
      isec.hdr.addr ≤ m.value ∧ m.value ≤ isec.hdr.addr + isec.hdr.size)
    (halt : ∀ m ∈ obj.machSyms, m.type = .sect → m.sect = j + 1 →
      m.value = isec.hdr.addr → descHas m.desc N_ALT_ENTRY = false) :
    BoundIn st k j isec.hdr.addr (msym.value - isec.hdr.addr) := by
  obtain ⟨st1, h1, h2⟩ := except_bind_eq_ok.mp h
  obtain ⟨extra, hpool, -⟩ := foldlM_splitCstringSection_pool h2
  obtain ⟨L₁, L₂, hL⟩ := List.append_of_mem (mem_splitRegularSections hj hc)
  have hnd := splitRegularSections_nodup obj
  rw [hL] at h1 hnd
  rw [List.foldlM_append] at h1
  obtain ⟨sta, ha, h1⟩ := except_bind_eq_ok.mp h1
  rw [List.foldlM_cons] at h1
  obtain ⟨stb, hb, hc2⟩ := except_bind_eq_ok.mp h1
  obtain ⟨-, hla, -⟩ := foldlM_splitSection_frame ha
  obtain ⟨hpc, -, hkc⟩ := foldlM_splitSection_frame hc2
  -- within its own section, the symbol's region binds it
  obtain ⟨hlo, hhi⟩ := hin msym (List.getElem?_mem hk) ht hsect
  have hoff : wrapSub 32 msym.value isec.hdr.addr = msym.value - isec.hdr.addr :=
    wrapSub_eq_sub hlo (by omega)
  have hbound : BoundIn stb k j isec.hdr.addr (msym.value - isec.hdr.addr) := by
    rw [← hoff]
    refine fixRegions_binds hs (sectionRegions obj isec j) (fun x hx => ?_) (fun x hx h0 => ?_)
      ((sectionRegions_symidx_sublist obj j).nodup (List.nodup_range _)) (fun k' hk' => ?_) hb _
      (symbolRegion_mem hk ht hsect) k rfl
    · obtain ⟨m, hm, hmt, hms, hxo, -⟩ := mem_sectionRegions hx
      obtain ⟨hml, hmh⟩ := hin m hm hmt hms
      rw [hxo, wrapSub_eq_sub hml (by omega)]
      omega
    · obtain ⟨m, hm, hmt, hms, hxo, hxa⟩ := mem_sectionRegions hx
      obtain ⟨hml, hmh⟩ := hin m hm hmt hms
      rw [hxo, wrapSub_eq_sub hml (by omega)] at h0
      rw [hxa]
      exact halt m hm hmt hms (by omega)
    · rw [hla, List.length_replicate]
      exact List.mem_range.mp ((sectionRegions_symidx_sublist obj j).subset hk')
  -- no later section has a region for it, and `__cstring` leaves the binding alone
  have hlater : ∀ y ∈ L₂, k ∉ y.2.2.filterMap (·.symidx) := by
    rintro ⟨j', isec', R'⟩ hy hky
    have hmem : (j', isec', R') ∈ splitRegularSections obj := hL ▸ by simp [hy]
    rw [(of_mem_splitRegularSections hmem).2.2] at hky
    obtain ⟨x, hx, hxk⟩ := List.mem_filterMap.mp ((fixRegions_symidx _ _).subset hky)
    obtain ⟨m, hm, -, hms⟩ := symidx_mem_sectionRegions hx hxk
    rw [hk, Option.some.injEq] at hm
    subst hm
    have hjj : j' = j := by omega
    subst hjj
    rw [List.map_append, List.map_cons] at hnd
    exact (List.nodup_middle.mp hnd |> List.nodup_cons.mp).1
      (List.mem_append_right _ (List.mem_map.mpr ⟨_, hy, rfl⟩))
  obtain ⟨p, s, hsym, hps, hrest⟩ := hbound.mono hpc (hkc k hlater)
  have hlt : p < st1.pool.length := (List.getElem?_eq_some_iff.mp hps).1
  exact ⟨p, s, by rw [foldlM_splitCstringSection_symToSubsec h2, hsym],
    by rw [hpool, List.getElem?_append_left hlt, hps], hrest⟩

/-- A symbol `split_subsections_via_symbols` binds is an `N_SECT` symbol of a present
section other than `__TEXT,__cstring`: only the regions of those sections bind. -/
theorem splitSubsectionsViaSymbols_origin {obj : MachObject} {st : SplitState}
    (h : splitSubsectionsViaSymbols obj = .ok st) {k p : Nat}
    (hp : st.symToSubsec[k]? = some (some p)) :
    ∃ j isec msym, obj.machSyms[k]? = some msym ∧ msym.type = .sect ∧ msym.sect = j + 1 ∧
      obj.sections[j]? = some (some isec) ∧ isec.hdr.matches "__TEXT" "__cstring" = false := by
  obtain ⟨st1, h1, h2⟩ := except_bind_eq_ok.mp h
  rw [foldlM_splitCstringSection_symToSubsec h2] at hp
  obtain ⟨-, -, hk1⟩ := foldlM_splitSection_frame h1
  by_cases hin : ∃ y ∈ splitRegularSections obj, k ∈ y.2.2.filterMap (·.symidx)
  · obtain ⟨⟨j, isec, R⟩, hy, hky⟩ := hin
    obtain ⟨hj, hc, rfl⟩ := of_mem_splitRegularSections hy
    obtain ⟨x, hx, hxk⟩ := List.mem_filterMap.mp ((fixRegions_symidx _ _).subset hky)
    obtain ⟨msym, hm, ht, hs⟩ := symidx_mem_sectionRegions hx hxk
    exact ⟨j, isec, msym, hm, ht, hs, hj, hc⟩
  · rw [hk1 k fun y hy hky => hin ⟨y, hy, hky⟩, List.getElem?_replicate] at hp
    split at hp <;> cases hp

/-- A symbol `init_subsections` binds is an `N_SECT` symbol of a present section, bound
to the one subsection of that section. -/
theorem initSubsections_origin {obj : MachObject} {k t : Nat}
    (h : (initSubsections obj).symToSubsec[k]? = some (some t)) :
    ∃ j isec msym, obj.machSyms[k]? = some msym ∧ msym.type = .sect ∧ msym.sect = j + 1 ∧
      obj.sections[j]? = some (some isec) ∧ (initSubsections obj).pool[t]? = some
        { isec := j, inputOffset := 0, inputSize := isec.hdr.size % 2 ^ 32,
          inputAddr := isec.hdr.addr % 2 ^ 32, p2align := isec.hdr.p2align % 2 ^ 8 } := by
  simp only [initSubsections, List.getElem?_map] at h
  obtain ⟨msym, hk, hf⟩ := Option.map_eq_some'.mp h
  split at hf
  · rename_i ht
    obtain ⟨hlt, hp, -⟩ := List.findIdx?_eq_some_iff_getElem.mp hf
    have hget := List.getElem?_eq_getElem hlt
    generalize (presentSections obj)[t] = y at hp hget
    obtain ⟨⟨j, s⟩, hm, hs⟩ := List.mem_filterMap.mp (List.getElem?_mem hget)
    cases s with
    | none => cases hs
    | some isec =>
      cases hs
      have hj1 : j + 1 = msym.sect := by simpa using hp
      refine ⟨j, isec, msym, hk, ht, hj1.symm, List.mem_enum_iff_getElem?.mp hm, ?_⟩
      simp only [initSubsections, List.getElem?_map, hget]
      rfl
  · cases hf

/-- Section `j`, present as `isec`, fits what the splitter assumes: it ends below
`2 ^ 32`, each `N_SECT` symbol naming it lies in it (its end included), and none at its
start is an alt entry. -/
def SectionFits (obj : MachObject) (j : Nat) (isec : InputSection) : Prop :=
  isec.hdr.addr + isec.hdr.size < 2 ^ 32 ∧
    ∀ m ∈ obj.machSyms, m.type = .sect → m.sect = j + 1 →
      isec.hdr.addr ≤ m.value ∧ m.value ≤ isec.hdr.addr + isec.hdr.size ∧
      (m.value = isec.hdr.addr → descHas m.desc N_ALT_ENTRY = false)

instance (obj : MachObject) (j : Nat) (isec : InputSection) : Decidable (SectionFits obj j isec) :=
  inferInstanceAs (Decidable (_ ∧ ∀ m ∈ obj.machSyms, _))

/-- The sections of a native object fit what the splitter assumes. -/
def SectionsFit (obj : MachObject) : Prop :=
  ∀ j isec, obj.sections[j]? = some (some isec) → SectionFits obj j isec

theorem sectionsFit_iff {obj : MachObject} :
    SectionsFit obj ↔ ∀ x ∈ obj.sections.enum, ∀ isec ∈ x.2, SectionFits obj x.1 isec := by
  constructor
  · rintro h ⟨j, o⟩ hx isec rfl
    exact h j isec (List.mem_enum_iff_getElem?.mp hx)
  · intro h j isec hj
    exact h (j, some isec) (List.mem_enum_iff_getElem?.mpr hj) isec rfl

instance (obj : MachObject) : Decidable (SectionsFit obj) := decidable_of_iff _ sectionsFit_iff.symm

theorem makeSubsections_eq {obj : MachObject} {v : Bool} {st : SplitState}
    (h : makeSubsections obj v = .ok st) :
    (v = true ∧ splitSubsectionsViaSymbols obj = .ok st) ∨ (v = false ∧ initSubsections obj = st) := by
  unfold makeSubsections at h
  cases v with
  | true =>
    cases hs : splitSubsectionsViaSymbols obj <;> simp only [hs, if_true, Except.mapError] at h
    · cases h
    · cases h; exact .inl ⟨rfl, rfl⟩
  | false => cases h; exact .inr ⟨rfl, rfl⟩

/-- Whichever splitter ran, on an object whose sections fit, every symbol bound to a
subsection is an `N_SECT` symbol of that subsection's section lying in it, its end
included. -/
theorem makeSubsections_within {obj : MachObject} {v : Bool} {st : SplitState}
    (h : makeSubsections obj v = .ok st) (hfit : SectionsFit obj) {k q : Nat}
    (hq : st.symToSubsec[k]? = some (some q)) :
    ∃ msym s, obj.machSyms[k]? = some msym ∧ msym.type = .sect ∧ st.pool[q]? = some s ∧
      s.isec + 1 = msym.sect ∧ s.inputAddr ≤ msym.value ∧
      msym.value ≤ s.inputAddr + s.inputSize ∧ msym.value < 2 ^ 32 := by
  rcases makeSubsections_eq h with ⟨-, h⟩ | ⟨-, rfl⟩
  · obtain ⟨j, isec, msym, hk, ht, hsect, hj, hc⟩ := splitSubsectionsViaSymbols_origin h hq
    obtain ⟨hfits, hsyms⟩ := hfit j isec hj
    obtain ⟨hlo, hhi, -⟩ := hsyms msym (List.getElem?_mem hk) ht hsect
    obtain ⟨p, s, hp, hs, hsj, hsa, hso, hse⟩ := splitSubsectionsViaSymbols_binds h hk ht hsect hj
      hc (by omega) (fun m hm hmt hms => ⟨(hsyms m hm hmt hms).1, (hsyms m hm hmt hms).2.1⟩)
      (fun m hm hmt hms => (hsyms m hm hmt hms).2.2)
    rw [hq, Option.some.injEq, Option.some.injEq] at hp
    subst hp
    rw [Nat.mod_eq_of_lt (by omega)] at hsa
    exact ⟨msym, s, hk, ht, hs, by omega, by omega, by omega, by omega⟩
  · obtain ⟨j, isec, msym, hk, ht, hsect, hj, hs⟩ := initSubsections_origin hq
    obtain ⟨hfits, hsyms⟩ := hfit j isec hj
    obtain ⟨hlo, hhi, -⟩ := hsyms msym (List.getElem?_mem hk) ht hsect
    refine ⟨msym, _, hk, ht, hs, hsect.symm, ?_⟩
    dsimp only
    rw [Nat.mod_eq_of_lt (by omega), Nat.mod_eq_of_lt (by omega)]
    omega

/-- Whichever splitter ran, on an object whose sections fit, every `N_SECT` symbol of a
section the splitter cuts is bound: any present section without the flag, and any but
`__TEXT,__cstring` with it. -/
theorem makeSubsections_binds {obj : MachObject} {v : Bool} {st : SplitState}
    (h : makeSubsections obj v = .ok st) (hfit : SectionsFit obj) {k j : Nat} {msym : MachSym}
    {isec : InputSection} (hk : obj.machSyms[k]? = some msym) (ht : msym.type = .sect)
    (hsect : msym.sect = j + 1) (hj : obj.sections[j]? = some (some isec))
    (hc : v = true → isec.hdr.matches "__TEXT" "__cstring" = false) :
    ∃ q, st.symToSubsec[k]? = some (some q) := by
  rcases makeSubsections_eq h with ⟨rfl, hs⟩ | ⟨-, rfl⟩
  · obtain ⟨hfits, hsyms⟩ := hfit j isec hj
    obtain ⟨p, -, hp, -⟩ := splitSubsectionsViaSymbols_binds hs hk ht hsect hj (hc rfl) (by omega)
      (fun m hm hmt hms => ⟨(hsyms m hm hmt hms).1, (hsyms m hm hmt hms).2.1⟩)
      (fun m hm hmt hms => (hsyms m hm hmt hms).2.2)
    exact ⟨p, hp⟩
  · obtain ⟨t, ht', -⟩ := initSubsections_binds hk ht hsect hj
    exact ⟨t, ht'⟩

theorem mapM_ok_getElem? {ε α β : Type} {f : α → Except ε β} :
    ∀ {l : List α} {l' : List β}, l.mapM f = .ok l' → ∀ {i : Nat} {a : α}, l[i]? = some a →
      ∃ b, f a = .ok b ∧ l'[i]? = some b
  | [], _, _, _, _, ha => by cases ha
  | x :: l, l', h, i, a, ha => by
    rw [List.mapM_cons] at h
    obtain ⟨b, hb, h⟩ := except_bind_eq_ok.mp h
    obtain ⟨bs, hbs, h⟩ := except_bind_eq_ok.mp h
    cases h
    cases i with
    | zero =>
      rw [List.getElem?_cons_zero, Option.some.injEq] at ha
      subst ha
      exact ⟨b, hb, List.getElem?_cons_zero⟩
    | succ i =>
      rw [List.getElem?_cons_succ] at ha
      simpa only [List.getElem?_cons_succ] using mapM_ok_getElem? hbs ha

/-- `parse_symbols` gives each entry the symbol `localSymbol` makes for it. -/
theorem parseSymbols_getElem? {self : Nat} {machSyms : List MachSym}
    {locals : List (Option Symbol)} (h : parseSymbols self machSyms = .ok locals) {k : Nat}
    {msym : MachSym} (hk : machSyms[k]? = some msym) :
    ∃ r, localSymbol self k msym = .ok r ∧ locals[k]? = some r :=
  mapM_ok_getElem? h (by rw [List.getElem?_enum, hk]; rfl)

/-- `fix_subsec_members` on an object whose sections fit: each local label of a section
the splitter cuts is bound to a subsection of that section, and its value is its offset
in it, at most the subsection's size. -/
theorem parseObject_locals_within {self : Nat} {obj : MachObject} {v : Bool} {p : ParsedObject}
    (h : parseObject self obj v = .ok p) (hfit : SectionsFit obj) {k j : Nat} {msym : MachSym}
    {isec : InputSection} (hk : obj.machSyms[k]? = some msym) (hext : msym.isExtern = false)
    (ht : msym.type = .sect) (hsect : msym.sect = j + 1) (hj : obj.sections[j]? = some (some isec))
    (hc : v = true → isec.hdr.matches "__TEXT" "__cstring" = false) :
    ∃ q s, p.locals[k]? =
        some (some { file := some self, subsec := some q, value := msym.value - s.inputAddr }) ∧
      p.pool[q]? = some s ∧ s.isec = j ∧ s.inputAddr ≤ msym.value ∧
      msym.value - s.inputAddr ≤ s.inputSize := by
  obtain ⟨st, locals, hl, hs, rfl⟩ := parseObject_ok h
  obtain ⟨q, hq⟩ := makeSubsections_binds hs hfit hk ht hsect hj hc
  obtain ⟨msym', s, hk', -, hps, hsj, hlo, hhi, hsmall⟩ := makeSubsections_within hs hfit hq
  rw [hk, Option.some.injEq] at hk'
  subst hk'
  obtain ⟨r, hr, hlk⟩ := parseSymbols_getElem? hl hk
  simp only [localSymbol, hext, ht, Bool.false_eq_true, if_false] at hr
  cases hr
  have haddr : inputAddrAt st.pool q = s.inputAddr := by simp [inputAddrAt, hps]
  refine ⟨q, s, ?_, hps, by omega, hlo, by omega⟩
  rw [← wrapSub_eq_sub hlo (by omega : msym.value - s.inputAddr < 2 ^ 64), ← haddr]
  simp only [fixSubsecMembers, List.getElem?_zipWith, List.getElem?_enum, hk, hlk,
    Option.map_some', fixSubsecMember, hext, ht, and_self, if_true, hq]
  rfl

theorem parseObject_text_label :
    ∃ p, parseObject 0 labelledTextObject true = .ok p ∧ ∃ q s,
      p.locals[1]? = some (some { file := some 0, subsec := some q, value := 0x108 - s.inputAddr }) ∧
      p.pool[q]? = some s ∧ s.isec = 0 ∧ s.inputAddr ≤ 0x108 ∧ 0x108 - s.inputAddr ≤ s.inputSize :=
  by
  obtain ⟨p, hp⟩ : ∃ p, parseObject 0 labelledTextObject true = .ok p := ⟨_, rfl⟩
  exact ⟨p, hp, parseObject_locals_within hp (by decide) (k := 1) (j := 0) rfl rfl rfl rfl rfl
    (fun _ => by decide)⟩

end Binding

end SoldMacho
