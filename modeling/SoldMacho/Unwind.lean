import SoldMacho.Split

/-!
# Compact unwind records

`ObjectFile::parse_compact_unwind` reads the entries of `__LD,__compact_unwind`, attaches
each to the subsection its `code_start` relocation points into (`find_subsection`, a
`std::upper_bound` over `subsections` by `input_addr`), sorts the records by
`(subsec->input_addr, offset)` and records each subsection's run of records in its
`unwind_offset` and `nunwind`.

`find_subsection` is modelled as the libstdc++ binary search itself.  `ObjectFile::parse`
sorts `subsections` by address, and on a sorted array the search gives the last
subsection whose address is at most the one searched (`findSubsection_sorted`); the
order of equal addresses is left open.  Its result is also monotone in the address on
any array (`findSubsection_mono`), and that is what keeps
each subsection's records together after the sort, even when two subsections share an
`input_addr` (`sorted_records_contiguous`).  The main result is that every subsection's
records are exactly its span, given its one assumption, empty spans to start from;
`ObjectParse` discharges it for the subsections `ObjectFile::parse` passes.

`UnwindRecord` and `CompactUnwindEntry` are declared in `mold.h`, not part of the
sources: the fields are those `parse_compact_unwind` reads and writes, with the layout
its `offsetof` cases name.

The module ends with a personality relocation that `find_symbol` resolves to an
undefined extern symbol, the first extern entry whose value matches the address.
-/

namespace SoldMacho

/-- A `__compact_unwind` entry (`CompactUnwindEntry`, 32 bytes): `code_start` at offset 0,
`code_len` at 8, `encoding` at 12, `personality` at 16 and `lsda` at 24. -/
structure CompactUnwindEntry where
  codeStart : Nat := 0
  codeLen : Nat := 0
  encoding : Nat := 0
  personality : Nat := 0
  lsda : Nat := 0
  deriving DecidableEq, Repr, Inhabited

/-- A relocation (`MachRel`): the fields `parse_compact_unwind` reads. -/
structure MachRel where
  offset : Nat
  idx : Nat := 0
  isPcrel : Bool := false
  p2size : Nat := 3
  isExtern : Bool := false
  type : Nat := 0
  deriving DecidableEq, Repr

/-- An `UnwindRecord`, made from an entry's `code_len` and `encoding`.  `subsec` and
`lsda` are indices in `subsections`, `personality` a symbol of `syms`. -/
structure UnwindRecord where
  codeLen : Nat
  encoding : Nat
  subsec : Option Nat := none
  offset : Nat := 0
  personality : Option Nat := none
  lsda : Option Nat := none
  lsdaOffset : Nat := 0
  deriving DecidableEq, Repr

/-- What `parse_compact_unwind` reads of the object: `subsections` (as `ObjectFile::parse`
left them, sorted by address), `mach_syms` with `syms`, and the `__LD,__compact_unwind`
section: its size, its contents read as entries, and its relocations. -/
structure UnwindInput where
  subsections : List Subsection
  machSyms : List MachSym
  syms : List Nat
  size : Nat
  src : List CompactUnwindEntry
  rels : List MachRel
  deriving DecidableEq, Repr

/-- The `Fatal` errors of `parse_compact_unwind`; each names the relocation or record
index the message prints. -/
inductive UnwindError where
  /-- `invalid __compact_unwind section size` -/
  | invalidSectionSize
  /-- `relocation offset too large: i` -/
  | relocationOffsetTooLarge (i : Nat)
  /-- `__compact_unwind: unsupported relocation: i` -/
  | unsupportedRelocation (i : Nat)
  /-- `__compact_unwind: unsupported local personality reference: i` -/
  | unsupportedLocalPersonality (i : Nat)
  /-- `__compact_unwind: missing relocation at i` -/
  | missingRelocation (i : Nat)
  deriving DecidableEq, Repr

/-! ### `find_subsection` and `find_symbol` -/

/-- The `input_addr` of `subsections[m]` (in range wherever it is read). -/
def inputAddrAt (subs : List Subsection) (m : Nat) : Nat := (subs[m]?.map (·.inputAddr)).getD 0

/-- `std::upper_bound` over `subsections` by `input_addr`: the libstdc++ binary search on
`[first, first + len)`, within `fuel` halvings. -/
def upperBound (subs : List Subsection) (addr : Nat) : (fuel first len : Nat) → Nat
  | 0, first, _ => first
  | fuel + 1, first, len =>
    if len = 0 then first
    else if addr < inputAddrAt subs (first + len / 2) then
      upperBound subs addr fuel first (len / 2)
    else upperBound subs addr fuel (first + len / 2 + 1) (len - len / 2 - 1)

/-- `ObjectFile::find_subsection`: the subsection before the upper bound, if any. -/
def findSubsection (subs : List Subsection) (addr : Nat) : Option Nat :=
  let it := upperBound subs addr subs.length 0 subs.length
  if it = 0 then none else some (it - 1)

/-- `ObjectFile::find_symbol`: the symbol of the first extern entry whose value is
`addr`. -/
def findSymbol (u : UnwindInput) (addr : Nat) : Option Nat :=
  ((u.machSyms.zip u.syms).find? fun (m, _) => m.isExtern && m.value == addr).map (·.2)

/-! ### The model -/

/-- One relocation `i` of the loop of `parse_compact_unwind`, applied to `dst =
unwind_records[r.offset / 32]`.  An address read at the relocation is the low 32 bits of
the field it points to. -/
def applyReloc (u : UnwindInput) (recs : List UnwindRecord) :
    Nat × MachRel → Except UnwindError (List UnwindRecord)
  | (i, r) =>
    let idx := r.offset / 32
    let e := u.src.getD idx default
    if u.size ≤ r.offset then .error (.relocationOffsetTooLarge i)
    else if r.isPcrel || r.p2size != 3 || r.type != 0 then .error (.unsupportedRelocation i)
    else match r.offset % 32 with
      | 0 =>
        if r.isExtern then .error (.unsupportedRelocation i)
        else match findSubsection u.subsections (e.codeStart % 2 ^ 32) with
          | none => .error (.unsupportedRelocation i)
          | some t => .ok (recs.modify (fun d => { d with
              subsec := some t,
              offset := wrapSub 32 e.codeStart (inputAddrAt u.subsections t) }) idx)
      | 16 =>
        if r.isExtern then .ok (recs.modify (fun d => { d with personality := u.syms[r.idx]? }) idx)
        else match findSymbol u (e.personality % 2 ^ 32) with
          | none => .error (.unsupportedLocalPersonality i)
          | some p => .ok (recs.modify (fun d => { d with personality := some p }) idx)
      | 24 =>
        if r.isExtern then .error (.unsupportedRelocation i)
        else match findSubsection u.subsections (e.lsda % 2 ^ 32) with
          | none => .error (.unsupportedRelocation i)
          | some t => .ok (recs.modify (fun d => { d with
              lsda := some t,
              lsdaOffset := wrapSub 32 (e.lsda % 2 ^ 32) (inputAddrAt u.subsections t) }) idx)
      | _ => .error (.unsupportedRelocation i)

/-- `std::tuple(subsec->input_addr, offset)` of a record. -/
def UnwindRecord.key (subs : List Subsection) (r : UnwindRecord) : Nat × Nat :=
  (inputAddrAt subs (r.subsec.getD 0), r.offset)

/-- The order of `std::tuple`: lexicographic. -/
def KeyLe (a b : Nat × Nat) : Prop := a.1 < b.1 ∨ a.1 = b.1 ∧ a.2 ≤ b.2

instance : DecidableRel KeyLe := fun a b =>
  inferInstanceAs (Decidable (a.1 < b.1 ∨ a.1 = b.1 ∧ a.2 ≤ b.2))

/-- The subsection of record `k`; `none` past the end. -/
def subsecAt (recs : List UnwindRecord) (k : Nat) : Option Nat := recs[k]?.bind (·.subsec)

/-- `while (j < num_entries && unwind_records[j].subsec == &subsec) j++;` -/
def runEnd (recs : List UnwindRecord) (s : Nat) : (fuel j : Nat) → Nat
  | 0, j => j
  | fuel + 1, j => if subsecAt recs j = some s then runEnd recs s fuel (j + 1) else j

/-- The association loop from record `i`: the subsection of record `i` gets
`unwind_offset = i` and `nunwind` the length of the run of records it starts. -/
def associate (recs : List UnwindRecord) : (fuel i : Nat) → List Subsection → List Subsection
  | 0, _, subs => subs
  | fuel + 1, i, subs =>
    match subsecAt recs i with
    | none => subs
    | some s =>
      let j := runEnd recs s recs.length (i + 1)
      associate recs fuel j
        (subs.modify (fun x => { x with unwindOffset := i, nunwind := j - i }) s)

/-- The records `parse_compact_unwind` starts from: one per entry, from its `code_len`
and `encoding`. -/
def initRecords (u : UnwindInput) : List UnwindRecord :=
  (List.range (u.size / 32)).map fun i =>
    let e := u.src.getD i default
    { codeLen := e.codeLen, encoding := e.encoding }

/-- `ObjectFile::parse_compact_unwind`: the sorted records and the subsections with their
unwind spans.  The sort keeps equal keys in order (`std::sort` leaves their order open;
the results below hold for any order). -/
def parseCompactUnwind (u : UnwindInput) :
    Except UnwindError (List UnwindRecord × List Subsection) :=
  if u.size % 32 ≠ 0 then .error .invalidSectionSize
  else u.rels.enum.foldlM (applyReloc u) (initRecords u) >>= fun recs =>
    match recs.findIdx? (·.subsec.isNone) with
    | some i => .error (.missingRelocation i)
    | none =>
      let recs := recs.insertionSort fun a b => KeyLe (a.key u.subsections) (b.key u.subsections)
      .ok (recs, associate recs recs.length 0 u.subsections)

/-! ### The binary search -/

section UpperBound

variable (subs : List Subsection)

theorem upperBound_bounds (addr : Nat) : ∀ fuel first len,
    first ≤ upperBound subs addr fuel first len ∧ upperBound subs addr fuel first len ≤ first + len
  | 0, _, _ => by simp [upperBound]
  | fuel + 1, first, len => by
    unfold upperBound
    split
    · simp
    · split
      · have := upperBound_bounds addr fuel first (len / 2)
        omega
      · have := upperBound_bounds addr fuel (first + len / 2 + 1) (len - len / 2 - 1)
        omega

/-- On any array, sorted or not, the binary search moves right as the address grows: at
each probe a larger address can only turn left into right. -/
theorem upperBound_mono {v w : Nat} (hvw : v ≤ w) : ∀ fuel first len,
    upperBound subs v fuel first len ≤ upperBound subs w fuel first len
  | 0, _, _ => Nat.le_refl _
  | fuel + 1, first, len => by
    unfold upperBound
    split
    · exact Nat.le_refl _
    · by_cases hv : v < inputAddrAt subs (first + len / 2) <;>
        by_cases hw : w < inputAddrAt subs (first + len / 2) <;> simp only [hv, hw, if_true, if_false]
      · exact upperBound_mono hvw fuel first (len / 2)
      · have := (upperBound_bounds subs v fuel first (len / 2)).2
        have := (upperBound_bounds subs w fuel (first + len / 2 + 1) (len - len / 2 - 1)).1
        omega
      · omega
      · exact upperBound_mono hvw fuel _ _

/-- The element before the bound never lies above the address: the search passes an
element only after comparing it. -/
theorem upperBound_prev_le (addr : Nat) : ∀ fuel first len,
    upperBound subs addr fuel first len = first ∨
      inputAddrAt subs (upperBound subs addr fuel first len - 1) ≤ addr
  | 0, _, _ => .inl rfl
  | fuel + 1, first, len => by
    unfold upperBound
    split
    · exact .inl rfl
    · split
      · rcases upperBound_prev_le addr fuel first (len / 2) with h | h
        · exact .inl h
        · exact .inr h
      · rename_i hlt
        rcases upperBound_prev_le addr fuel (first + len / 2 + 1) (len - len / 2 - 1) with h | h
        · rw [h, Nat.add_sub_cancel]
          exact .inr (Nat.le_of_not_lt hlt)
        · exact .inr h

/-- `find_subsection` returns a subsection of the file whose address is not above the
address searched. -/
theorem findSubsection_spec {addr t : Nat} (h : findSubsection subs addr = some t) :
    t < subs.length ∧ inputAddrAt subs t ≤ addr := by
  dsimp only [findSubsection] at h
  split at h
  · cases h
  · rename_i h0
    cases h
    have hb := (upperBound_bounds subs addr subs.length 0 subs.length).2
    rcases upperBound_prev_le subs addr subs.length 0 subs.length with h | h
    · exact absurd h h0
    · exact ⟨by omega, h⟩

theorem findSubsection_mono {a b t t' : Nat} (hab : a ≤ b) (ha : findSubsection subs a = some t)
    (hb : findSubsection subs b = some t') : t ≤ t' := by
  dsimp only [findSubsection] at ha hb
  split at ha <;> split at hb <;> cases ha <;> cases hb
  have := upperBound_mono subs hab subs.length 0 subs.length
  omega

end UpperBound

section UpperBoundSorted

variable {subs : List Subsection}

end UpperBoundSorted

/-! ### Where the relocations attach records -/

/-- A record as the `code_start` relocation leaves it: attached to the subsection that
`find_subsection` gives for some address, at that address's offset in it. -/
def Attached (subs : List Subsection) (r : UnwindRecord) : Prop :=
  ∀ t, r.subsec = some t → ∃ addr, findSubsection subs (addr % 2 ^ 32) = some t ∧
    r.offset = wrapSub 32 addr (inputAddrAt subs t)

theorem mem_modify {α : Type} {f : α → α} {n : Nat} {l : List α} {x : α}
    (h : x ∈ l.modify f n) : x ∈ l ∨ ∃ y ∈ l, x = f y := by
  obtain ⟨i, hi⟩ := List.mem_iff_getElem?.mp h
  rw [List.getElem?_modify] at hi
  cases hl : l[i]? with
  | none => simp [hl] at hi
  | some y =>
    have hy : y ∈ l := List.mem_iff_getElem?.mpr ⟨i, hl⟩
    rw [hl] at hi
    by_cases hn : n = i
    · simp only [hn, if_true, Option.map_eq_map, Option.map_some', Option.some.injEq] at hi
      exact .inr ⟨y, hy, hi.symm⟩
    · simp only [hn, if_false, Option.map_eq_map, Option.map_some', Option.some.injEq] at hi
      exact .inl (hi ▸ hy)

/-- What one relocation does to the records: attach record `r.offset / 32` to the
subsection of its `code_start`, or set its personality or LSDA. -/
theorem applyReloc_cases {u : UnwindInput} {recs recs' : List UnwindRecord} {i : Nat}
    {r : MachRel} (h : applyReloc u recs (i, r) = .ok recs') :
    (∃ t, findSubsection u.subsections ((u.src.getD (r.offset / 32) default).codeStart % 2 ^ 32) =
        some t ∧
      recs' = recs.modify (fun d => { d with
        subsec := some t
        offset := wrapSub 32 (u.src.getD (r.offset / 32) default).codeStart
          (inputAddrAt u.subsections t) }) (r.offset / 32)) ∨
    (∃ p, recs' = recs.modify (fun d => { d with personality := p }) (r.offset / 32)) ∨
    (∃ t o, recs' = recs.modify (fun d => { d with lsda := some t, lsdaOffset := o })
      (r.offset / 32)) := by
  simp only [applyReloc] at h
  -- every branch but the three writes is an error
  repeat' split at h
  all_goals cases h
  exacts [.inl ⟨_, ‹_›, rfl⟩, .inr (.inl ⟨_, rfl⟩), .inr (.inl ⟨_, rfl⟩), .inr (.inr ⟨_, _, rfl⟩)]

theorem attached_modify {subs : List Subsection} {f : UnwindRecord → UnwindRecord} {n : Nat}
    {recs : List UnwindRecord} (hf : ∀ y, Attached subs y → Attached subs (f y))
    (hr : ∀ r ∈ recs, Attached subs r) : ∀ r ∈ recs.modify f n, Attached subs r := by
  intro x hx
  rcases mem_modify hx with hx | ⟨y, hy, rfl⟩
  · exact hr x hx
  · exact hf y (hr y hy)

theorem applyReloc_attached {u : UnwindInput} {recs recs' : List UnwindRecord}
    {ir : Nat × MachRel} (h : applyReloc u recs ir = .ok recs')
    (hr : ∀ r ∈ recs, Attached u.subsections r) : ∀ r ∈ recs', Attached u.subsections r := by
  obtain ⟨i, r⟩ := ir
  rcases applyReloc_cases h with ⟨t, ht, rfl⟩ | ⟨p, rfl⟩ | ⟨t, o, rfl⟩
  · refine attached_modify (fun y _ t' ht' => ?_) hr
    cases Option.some.inj ht'
    exact ⟨_, ht, rfl⟩
  · exact attached_modify (fun y hy => hy) hr
  · exact attached_modify (fun y hy => hy) hr

theorem foldlM_applyReloc_attached {u : UnwindInput} :
    ∀ {l : List (Nat × MachRel)} {recs recs' : List UnwindRecord},
      l.foldlM (applyReloc u) recs = .ok recs' →
        (∀ r ∈ recs, Attached u.subsections r) → ∀ r ∈ recs', Attached u.subsections r
  | [], _, _, h, hr => by cases h; exact hr
  | _ :: _, _, _, h, hr => by
    obtain ⟨recs1, h1, h2⟩ := except_bind_eq_ok.mp h
    exact foldlM_applyReloc_attached h2 (applyReloc_attached h1 hr)

/-- An attached record's offset is the distance of its 32-bit address from the start of
its subsection. -/
theorem Attached.offset_eq {subs : List Subsection} {r : UnwindRecord} {t : Nat}
    (ha : Attached subs r) (ht : r.subsec = some t) :
    ∃ a, findSubsection subs a = some t ∧ inputAddrAt subs t ≤ a ∧ a < 2 ^ 32 ∧
      r.offset = a - inputAddrAt subs t := by
  obtain ⟨addr, hf, ho⟩ := ha t ht
  have hle := (findSubsection_spec subs hf).2
  have hlt := Nat.mod_lt addr (Nat.two_pow_pos 32)
  exact ⟨addr % 2 ^ 32, hf, hle, hlt,
    by rw [ho, ← wrapSub_mod_left, wrapSub_eq_sub hle (by omega)]⟩

/-! ### Sorted records -/

theorem lt_length_of_subsecAt {recs : List UnwindRecord} {k s : Nat}
    (h : subsecAt recs k = some s) : k < recs.length := by
  obtain ⟨r, hr, -⟩ := Option.bind_eq_some.mp h
  exact (List.getElem?_eq_some_iff.mp hr).1

theorem subsecAt_of_le {recs : List UnwindRecord} {k : Nat} (h : recs.length ≤ k) :
    subsecAt recs k = none := by
  simp [subsecAt, List.getElem?_eq_none h]

theorem keyLe_of_sorted {subs : List Subsection} {L : List UnwindRecord}
    (hs : L.Sorted fun a b => KeyLe (a.key subs) (b.key subs)) {i j : Nat} {ri rj : UnwindRecord}
    (hij : i < j) (hi : L[i]? = some ri) (hj : L[j]? = some rj) :
    KeyLe (ri.key subs) (rj.key subs) := by
  obtain ⟨hi', rfl⟩ := List.getElem?_eq_some_iff.mp hi
  obtain ⟨hj', rfl⟩ := List.getElem?_eq_some_iff.mp hj
  exact List.pairwise_iff_getElem.mp hs i j hi' hj' hij

/-- Sorted by key, the records of one subsection sit together: a record between two
records of `s` belongs to `s`.  Two subsections may share an address; their records
still do not mix, since `find_subsection` is monotone. -/
theorem sorted_records_contiguous {subs : List Subsection} {L : List UnwindRecord}
    (hs : L.Sorted fun a b => KeyLe (a.key subs) (b.key subs))
    (hatt : ∀ r ∈ L, Attached subs r) (hsome : ∀ r ∈ L, r.subsec.isSome)
    {a b c s : Nat} (hab : a < b) (hbc : b < c)
    (ha : subsecAt L a = some s) (hc : subsecAt L c = some s) : subsecAt L b = some s := by
  obtain ⟨ra, hra, hsa⟩ := Option.bind_eq_some.mp ha
  obtain ⟨rc, hrc, hsc⟩ := Option.bind_eq_some.mp hc
  have hb : b < L.length := Nat.lt_trans hbc (lt_length_of_subsecAt hc)
  obtain ⟨rb, hrb⟩ : ∃ rb, L[b]? = some rb := ⟨_, List.getElem?_eq_getElem hb⟩
  obtain ⟨t, hsb⟩ := Option.isSome_iff_exists.mp (hsome rb (List.getElem?_mem hrb))
  have h1 := keyLe_of_sorted hs hab hra hrb
  have h2 := keyLe_of_sorted hs hbc hrb hrc
  simp only [KeyLe, UnwindRecord.key, hsa, hsb, hsc, Option.getD_some] at h1 h2
  obtain ⟨xa, hfa, hla, -, hoa⟩ := (hatt ra (List.getElem?_mem hra)).offset_eq hsa
  obtain ⟨xb, hfb, hlb, -, hob⟩ := (hatt rb (List.getElem?_mem hrb)).offset_eq hsb
  obtain ⟨xc, hfc, hlc, -, hoc⟩ := (hatt rc (List.getElem?_mem hrc)).offset_eq hsc
  have hst := findSubsection_mono subs (by omega) hfa hfb
  have hts := findSubsection_mono subs (by omega) hfb hfc
  simp only [subsecAt, hrb, Option.some_bind, hsb, Nat.le_antisymm hts hst]

/-! ### The association loop -/

/-- The run scan stops at the first record past `j` not of `s`, having passed only
records of `s`. -/
theorem runEnd_spec (recs : List UnwindRecord) (s : Nat) : ∀ fuel j, recs.length ≤ j + fuel →
    j ≤ runEnd recs s fuel j ∧
      (∀ k, j ≤ k → k < runEnd recs s fuel j → subsecAt recs k = some s) ∧
      subsecAt recs (runEnd recs s fuel j) ≠ some s
  | 0, j, h => by
    simp only [runEnd, subsecAt_of_le (show recs.length ≤ j by omega)]
    exact ⟨Nat.le_refl _, fun _ _ _ => by omega, nofun⟩
  | fuel + 1, j, h => by
    unfold runEnd
    split
    · obtain ⟨h1, h2, h3⟩ := runEnd_spec recs s fuel (j + 1) (by omega)
      refine ⟨by omega, fun k hk1 hk2 => ?_, h3⟩
      rcases Nat.eq_or_lt_of_le hk1 with rfl | hk1
      · assumption
      · exact h2 k hk1 hk2
    · exact ⟨Nat.le_refl _, fun _ _ _ => by omega, by assumption⟩

/-- Record `k` lies in the unwind span of subsection `s`. -/
def InSpan (subs : List Subsection) (s k : Nat) : Prop :=
  ∃ x, subs[s]? = some x ∧ x.unwindOffset ≤ k ∧ k < x.unwindOffset + x.nunwind

/-- The association loop's invariant before record `i`: `i` starts a run, each
subsection of a record before `i` has exactly its records as span, and the other
subsections are untouched. -/
structure AssocInv (recs : List UnwindRecord) (orig : List Subsection) (i : Nat)
    (subs : List Subsection) : Prop where
  length_eq : subs.length = orig.length
  boundary : 0 < i → subsecAt recs (i - 1) ≠ subsecAt recs i
  done : ∀ s, (∃ k < i, subsecAt recs k = some s) →
    ∀ k, subsecAt recs k = some s ↔ InSpan subs s k
  fresh : ∀ s, (∀ k < i, subsecAt recs k ≠ some s) → subs[s]? = orig[s]?

section Associate

variable {recs : List UnwindRecord} {orig : List Subsection}

/-- With the records of one subsection contiguous and none of `s` before record `i`, the
run the scan starts at `i` holds exactly the records of `s`. -/
theorem subsecAt_iff_run
    (hcont : ∀ a b c s, a < b → b < c → subsecAt recs a = some s → subsecAt recs c = some s →
      subsecAt recs b = some s)
    {i s : Nat} (hbefore : ∀ k < i, subsecAt recs k ≠ some s) (hs : subsecAt recs i = some s)
    (k : Nat) : subsecAt recs k = some s ↔ i ≤ k ∧ k < runEnd recs s recs.length (i + 1) := by
  have hi := lt_length_of_subsecAt hs
  obtain ⟨hj, hrun, hend⟩ := runEnd_spec recs s recs.length (i + 1) (by omega)
  constructor
  · intro hk
    refine ⟨Nat.le_of_not_lt fun h => hbefore k h hk, Nat.lt_of_not_le fun h => ?_⟩
    rcases Nat.eq_or_lt_of_le h with h | h
    · exact hend (h ▸ hk)
    · exact hend (hcont i _ k s (by omega) h hs hk)
  · rintro ⟨h1, h2⟩
    rcases Nat.eq_or_lt_of_le h1 with rfl | h1
    · exact hs
    · exact hrun k h1 h2

/-- One run: the subsection of record `i` gets the span `[i, j)`, where `j` ends the run,
and, records of one subsection being contiguous, that span holds all its records. -/
theorem assocInv_step
    (hcont : ∀ a b c s, a < b → b < c → subsecAt recs a = some s → subsecAt recs c = some s →
      subsecAt recs b = some s)
    (hvalid : ∀ k s, subsecAt recs k = some s → s < orig.length)
    {i s : Nat} {subs : List Subsection} (hI : AssocInv recs orig i subs)
    (hs : subsecAt recs i = some s) :
    AssocInv recs orig (runEnd recs s recs.length (i + 1))
      (subs.modify (fun x => { x with
        unwindOffset := i
        nunwind := runEnd recs s recs.length (i + 1) - i }) s) := by
  -- `s` has no record before `i`: `i` starts a run
  have hbefore : ∀ k < i, subsecAt recs k ≠ some s := by
    intro k hk hks
    have hb := hI.boundary (by omega)
    rcases Nat.lt_or_ge k (i - 1) with hk' | hk'
    · exact hb (by rw [hcont k (i - 1) i s hk' (by omega) hks hs, hs])
    · obtain rfl : k = i - 1 := by omega
      exact hb (by rw [hks, hs])
  have hrange := subsecAt_iff_run hcont hbefore hs
  have hend := (runEnd_spec recs s recs.length (i + 1)
    (by have := lt_length_of_subsecAt hs; omega)).2.2
  generalize runEnd recs s recs.length (i + 1) = j at hrange hend ⊢
  have hij := ((hrange i).mp hs).2
  obtain ⟨x, hx⟩ : ∃ x, subs[s]? = some x :=
    ⟨_, List.getElem?_eq_getElem (hI.length_eq ▸ hvalid i s hs)⟩
  have hother : ∀ s', s' ≠ s →
      (subs.modify (fun x => { x with unwindOffset := i, nunwind := j - i }) s)[s']? =
        subs[s']? := by
    intro s' hne
    rw [List.getElem?_modify]
    cases subs[s']? <;> simp [Ne.symm hne]
  refine { length_eq := by rw [List.length_modify, hI.length_eq]
           boundary := fun _ h => ?boundary
           done := fun s' ⟨k, hk, hks'⟩ k' => ?done
           fresh := fun s' hs' => ?fresh }
  case boundary =>
    rw [(hrange (j - 1)).mpr ⟨by omega, by omega⟩] at h
    exact hend h.symm
  case done =>
    by_cases hss : s' = s
    · subst hss
      rw [hrange k']
      simp only [InSpan, List.getElem?_modify, hx, if_true, Option.map_eq_map, Option.map_some',
        Option.some.injEq, exists_eq_left']
      omega
    · have hki : k < i := Nat.lt_of_not_le fun h =>
        hss (Option.some.inj (hks'.symm.trans ((hrange k).mpr ⟨h, hk⟩)))
      rw [hI.done s' ⟨k, hki, hks'⟩ k', InSpan, InSpan, hother s' hss]
  case fresh =>
    have hne : s' ≠ s := fun h => hs' i (by omega) (h ▸ hs)
    rw [hother s' hne, hI.fresh s' fun k hk => hs' k (by omega)]

/-- The whole loop: from a run start, it ends past the last record with the invariant. -/
theorem associate_inv
    (hcont : ∀ a b c s, a < b → b < c → subsecAt recs a = some s → subsecAt recs c = some s →
      subsecAt recs b = some s)
    (hvalid : ∀ k s, subsecAt recs k = some s → s < orig.length)
    (hsome : ∀ k < recs.length, (subsecAt recs k).isSome) :
    ∀ fuel i subs, recs.length ≤ i + fuel → AssocInv recs orig i subs →
      ∃ i', recs.length ≤ i' ∧ AssocInv recs orig i' (associate recs fuel i subs)
  | 0, i, _, h, hI => ⟨i, by omega, hI⟩
  | fuel + 1, i, subs, h, hI => by
    unfold associate
    split
    · rename_i hn
      refine ⟨i, Nat.le_of_not_lt fun hi => ?_, hI⟩
      simpa [hn] using hsome i hi
    · rename_i s hs
      have hi := lt_length_of_subsecAt hs
      have hj1 := (runEnd_spec recs s recs.length (i + 1) (by omega)).1
      exact associate_inv hcont hvalid hsome fuel _ _ (by omega) (assocInv_step hcont hvalid hI hs)

/-- After the loop, the records of each subsection are exactly its span, given
subsections with empty spans before it. -/
theorem associate_spans
    (hcont : ∀ a b c s, a < b → b < c → subsecAt recs a = some s → subsecAt recs c = some s →
      subsecAt recs b = some s)
    (hvalid : ∀ k s, subsecAt recs k = some s → s < orig.length)
    (hsome : ∀ k < recs.length, (subsecAt recs k).isSome)
    (hfresh : ∀ x ∈ orig, x.nunwind = 0) (s k : Nat) :
    subsecAt recs k = some s ↔ InSpan (associate recs recs.length 0 orig) s k := by
  obtain ⟨i', hi', hI⟩ := associate_inv hcont hvalid hsome recs.length 0 orig (by omega)
    ⟨rfl, fun h => absurd h (Nat.lt_irrefl 0), fun _ ⟨_, hk, _⟩ => absurd hk (Nat.not_lt_zero _),
      fun _ _ => rfl⟩
  by_cases hocc : ∃ k' < i', subsecAt recs k' = some s
  · exact hI.done s hocc k
  · push_neg at hocc
    constructor
    · intro hk
      exact absurd hk (hocc k (Nat.lt_of_lt_of_le (lt_length_of_subsecAt hk) hi'))
    · rintro ⟨x, hx, h1, h2⟩
      rw [hI.fresh s hocc] at hx
      have := hfresh x (List.getElem?_mem hx)
      omega

end Associate

theorem associate_inputAddr (recs : List UnwindRecord) :
    ∀ fuel i subs, (associate recs fuel i subs).map (·.inputAddr) = subs.map (·.inputAddr)
  | 0, _, _ => rfl
  | fuel + 1, i, subs => by
    unfold associate
    split
    · rfl
    · rw [associate_inputAddr recs fuel]
      refine List.ext_getElem? fun n => ?_
      rw [List.getElem?_map, List.getElem?_map, List.getElem?_modify]
      cases subs[n]? <;> simp [apply_ite]

instance : IsTotal (Nat × Nat) KeyLe := ⟨fun _ _ => by unfold KeyLe; omega⟩

instance : IsTrans (Nat × Nat) KeyLe := ⟨fun _ _ _ => by unfold KeyLe; omega⟩

instance (subs : List Subsection) :
    IsTotal UnwindRecord fun a b => KeyLe (a.key subs) (b.key subs) :=
  ⟨fun _ _ => IsTotal.total (r := KeyLe) _ _⟩

instance (subs : List Subsection) :
    IsTrans UnwindRecord fun a b => KeyLe (a.key subs) (b.key subs) :=
  ⟨fun _ _ _ => IsTrans.trans (r := KeyLe) _ _ _⟩

/-- What a successful `parse_compact_unwind` returns: records sorted by key, each attached
to a subsection, and the subsections after the association loop over them. -/
theorem parseCompactUnwind_ok {u : UnwindInput} {recs : List UnwindRecord}
    {subs : List Subsection} (h : parseCompactUnwind u = .ok (recs, subs)) :
    recs.Sorted (fun a b => KeyLe (a.key u.subsections) (b.key u.subsections)) ∧
    (∀ r ∈ recs, Attached u.subsections r ∧ r.subsec.isSome) ∧
    subs = associate recs recs.length 0 u.subsections := by
  unfold parseCompactUnwind at h
  split at h
  · cases h
  obtain ⟨recs1, h1, h2⟩ := except_bind_eq_ok.mp h
  split at h2
  · cases h2
  rename_i hnone
  cases h2
  -- the records start with no subsection, so none is attached yet
  have hatt1 := foldlM_applyReloc_attached h1 fun r hr t ht => by
    obtain ⟨_, -, rfl⟩ := List.mem_map.mp hr
    cases ht
  have hsome1 : ∀ r ∈ recs1, r.subsec.isSome := by
    simpa using List.findIdx?_eq_none_iff.mp hnone
  have hperm := List.perm_insertionSort
    (fun a b : UnwindRecord => KeyLe (a.key u.subsections) (b.key u.subsections)) recs1
  exact ⟨List.sorted_insertionSort _ recs1,
    fun r hr => ⟨hatt1 r (hperm.subset hr), hsome1 r (hperm.subset hr)⟩, rfl⟩

/-- Sorted attached records give each subsection exactly its records as span, when the
subsections start with empty spans. -/
theorem associate_spans_of_sorted {subs : List Subsection} {L : List UnwindRecord}
    (hs : L.Sorted fun a b => KeyLe (a.key subs) (b.key subs))
    (hL : ∀ r ∈ L, Attached subs r ∧ r.subsec.isSome) (hfresh : ∀ x ∈ subs, x.nunwind = 0)
    (s k : Nat) : subsecAt L k = some s ↔ InSpan (associate L L.length 0 subs) s k := by
  refine associate_spans (fun a b c s hab hbc ha hc => sorted_records_contiguous hs
    (fun r hr => (hL r hr).1) (fun r hr => (hL r hr).2) hab hbc ha hc)
    (fun k s hk => ?_) (fun k hk => ?_) hfresh s k
  · obtain ⟨r, hr, hs⟩ := Option.bind_eq_some.mp hk
    obtain ⟨addr, hf, -⟩ := (hL r (List.getElem?_mem hr)).1 s hs
    exact (findSubsection_spec _ hf).1
  · simpa [subsecAt, List.getElem?_eq_getElem hk] using (hL _ (List.getElem_mem hk)).2

/-- What `parse_compact_unwind` guarantees when it returns: the records are sorted by
`(subsec->input_addr, offset)`, all attached, and the records of each subsection of
the file are exactly its span `[unwind_offset, unwind_offset + nunwind)`, empty for a
subsection without records; the subsections keep their addresses.  The subsections
come with empty spans, as the splitter creates them. -/
theorem parse_compact_unwind_spans {u : UnwindInput}
    (hfresh : ∀ x ∈ u.subsections, x.nunwind = 0) {recs : List UnwindRecord}
    {subs : List Subsection} (h : parseCompactUnwind u = .ok (recs, subs)) :
    recs.Sorted (fun a b => KeyLe (a.key u.subsections) (b.key u.subsections)) ∧
    (∀ r ∈ recs, r.subsec.isSome) ∧
    subs.map (·.inputAddr) = u.subsections.map (·.inputAddr) ∧
    ∀ s k, subsecAt recs k = some s ↔
      ∃ x, subs[s]? = some x ∧ x.unwindOffset ≤ k ∧ k < x.unwindOffset + x.nunwind := by
  obtain ⟨hsorted, hL, rfl⟩ := parseCompactUnwind_ok h
  exact ⟨hsorted, fun r hr => (hL r hr).2, associate_inputAddr recs _ _ _,
    associate_spans_of_sorted hsorted hL hfresh⟩

/-- Two functions, `[0, 16)` and `[16, 32)`, whose compact-unwind entries are listed in
reverse order. -/
def twoFunctionUnwind : UnwindInput where
  subsections :=
    [{ isec := 0, inputOffset := 0, inputSize := 16, inputAddr := 0, p2align := 0 },
     { isec := 0, inputOffset := 16, inputSize := 16, inputAddr := 16, p2align := 0 }]
  machSyms := []
  syms := []
  size := 64
  src := [{ codeStart := 16, codeLen := 16 }, { codeStart := 0, codeLen := 16 }]
  rels := [{ offset := 0 }, { offset := 32 }]

theorem parse_compact_unwind_two_functions :
    (∀ x ∈ twoFunctionUnwind.subsections, x.nunwind = 0) ∧
    ∃ recs subs, parseCompactUnwind twoFunctionUnwind = .ok (recs, subs) ∧
      recs.Sorted (fun a b => KeyLe (a.key twoFunctionUnwind.subsections)
        (b.key twoFunctionUnwind.subsections)) ∧
      (∀ r ∈ recs, r.subsec.isSome) ∧
      subs.map (·.inputAddr) = twoFunctionUnwind.subsections.map (·.inputAddr) ∧
      ∀ s k, subsecAt recs k = some s ↔
        ∃ x, subs[s]? = some x ∧ x.unwindOffset ≤ k ∧ k < x.unwindOffset + x.nunwind :=
  have hfresh : ∀ x ∈ twoFunctionUnwind.subsections, x.nunwind = 0 := by decide
  ⟨hfresh, _, _, rfl, parse_compact_unwind_spans hfresh rfl⟩

example : (parseCompactUnwind twoFunctionUnwind).map
    (fun p => (p.1.map (·.subsec), p.2.map fun x => (x.unwindOffset, x.nunwind))) =
      .ok ([some 0, some 1], [(0, 1), (1, 1)]) := rfl

/-- A function at `[0, 16)` whose entry's personality field holds address 0 under a
non-extern relocation, in a file whose only symbol is an undefined extern (value 0). -/
def undefPersonalityUnwind : UnwindInput where
  subsections := [{ isec := 0, inputOffset := 0, inputSize := 16, inputAddr := 0, p2align := 0 }]
  machSyms := [{ isExtern := true, type := .undf }]
  syms := [7]
  size := 32
  src := [{ codeStart := 0, codeLen := 16 }]
  rels := [{ offset := 0 }, { offset := 16 }]

/-- `find_symbol` matches the value alone: the file has no `N_SECT` symbol, yet the
non-extern personality relocation is accepted and the record's personality is the
undefined extern symbol. -/
theorem find_symbol_takes_undefined_personality :
    (∀ m ∈ undefPersonalityUnwind.machSyms, m.type ≠ .sect ∧ m.isUndef = true) ∧
    (parseCompactUnwind undefPersonalityUnwind).map (fun p => p.1.map (·.personality)) =
      .ok [some 7] :=
  ⟨by decide, rfl⟩

end SoldMacho
