import SoldMacho.Binding
import SoldMacho.Archive
import SoldMacho.Duplicate

/-!
# Where a resolved symbol points

A symbol owned by an object carries what the winning entry's `switch` in
`resolve_symbols` wrote: a subsection and an offset for an `N_SECT` entry, the size for
a common one, the value for an absolute one.  This module states that as an invariant of
the symbol table (`Placed`) and proves it of every table the resolution driver reaches,
for any order of the files and any sequence of resolve and clear passes
(`reachable_placed`): the subsection is one of the owner's, and the subsection's
address plus the symbol's value is the address of the owner's entry, within the
subsection.

It needs each object's entries to lie in their subsections (`ObjectFile.EntriesWithin`),
which the splitter guarantees for an object whose sections fit
(`toObjectFile_entriesWithin`); bitcode entries have no subsection.

The last section says when resolution cannot fail (`resolveAll_parsed_ok`): every
candidate has a known type and, if `N_SECT`, lies in a section the splitter cuts, so
that the splitter has bound it to a subsection.
-/

namespace SoldMacho

/-- Each `N_SECT` entry that has a subsection lies in it, its end included, and its
address fits in 64 bits: what the `N_SECT` branch of `resolve_symbols` needs to turn
the address into an offset. -/
def ObjectFile.EntriesWithin (obj : ObjectFile) : Prop :=
  ∀ e ∈ obj.entries, e.msym.type = .sect → ∀ q, e.subsec = some q →
    ∃ s, obj.subsecPool[q]? = some s ∧ s.inputAddr ≤ e.msym.value ∧
      e.msym.value ≤ s.inputAddr + s.inputSize ∧ e.msym.value < 2 ^ 64

/-- What `ObjectFile::parse` leaves for resolution, in the parts resolution reads: the
entries and pool of a native object split from a Mach-O object whose sections fit, or
the entries of a bitcode object, which have no subsection. -/
def ObjectFile.Parsed (obj : ObjectFile) : Prop :=
  (∃ mo v st syms, SectionsFit mo ∧ makeSubsections mo v = .ok st ∧
    obj.entries = (mo.toObjectFile st obj.priority syms).entries ∧ obj.subsecPool = st.pool) ∨
  ∃ syms, obj.entries = (parseLtoSymbols obj.priority obj.isHidden syms).entries

/-- The splitter leaves every entry of a fitted object within its subsection. -/
theorem toObjectFile_entriesWithin {mo : MachObject} {v : Bool} {st : SplitState}
    (h : makeSubsections mo v = .ok st) (hfit : SectionsFit mo) (priority : Nat) (syms : Nat → Nat) :
    (mo.toObjectFile st priority syms).EntriesWithin := by
  intro e he ht q hq
  obtain ⟨⟨k, msym⟩, hkm, rfl⟩ := List.mem_map.mp he
  dsimp only at hq ⊢
  obtain ⟨msym', s, hk, -, hs, -, hlo, hhi, hsmall⟩ :=
    makeSubsections_within h hfit (Option.join_eq_some.mp hq)
  rw [List.mk_mem_enum_iff_getElem?.mp hkm, Option.some.injEq] at hk
  subst hk
  exact ⟨s, hs, hlo, hhi, by omega⟩

theorem ObjectFile.Parsed.entriesWithin {obj : ObjectFile} (h : obj.Parsed) : obj.EntriesWithin := by
  rcases h with ⟨mo, v, st, syms, hfit, hs, he, hp⟩ | ⟨syms, he⟩
  · intro e hmem
    rw [he] at hmem
    simpa only [hp] using toObjectFile_entriesWithin hs hfit obj.priority syms e hmem
  · intro e hmem _ q hq
    rw [he] at hmem
    obtain ⟨_, -, rfl⟩ := List.mem_map.mp hmem
    cases hq

/-- What the owner's entry `e` makes of `sym`, by the entry's type (the `switch` of
`resolve_symbols`): a section symbol points into the owner's pool, at the offset of the
entry's address in the subsection; a common symbol holds the entry's size; an absolute
symbol its value. -/
def DefinedBy (obj : ObjectFile) (e : SymEntry) (sym : Symbol) : Prop :=
  match e.msym.type with
  | .sect => sym.isCommon = false ∧ ∃ q s, sym.subsec = some q ∧ obj.subsecPool[q]? = some s ∧
      s.inputAddr + sym.value = e.msym.value ∧ sym.value ≤ s.inputSize
  | .undf => sym.isCommon = true ∧ sym.subsec = none ∧ sym.value = e.msym.value
  | .abs => sym.isCommon = false ∧ sym.subsec = none ∧ sym.value = e.msym.value
  | .other _ => False

/-- Symbol `y` is unowned and empty, owned by a dylib (no subsection, value 0, not
common), or owned by an object through one of its extern entries for `y`, which defines
it. -/
def SymbolPlaced (link : Link) (y : Nat) (sym : Symbol) : Prop :=
  match sym.file with
  | none => sym.subsec = none ∧ sym.value = 0 ∧ sym.isCommon = false
  | some f =>
    match link.files f with
    | .object obj => ∃ e ∈ obj.entries, e.sym = y ∧ e.msym.isExtern = true ∧ DefinedBy obj e sym
    | .dylib _ => sym.subsec = none ∧ sym.value = 0 ∧ sym.isCommon = false

/-- Every symbol of the table is placed. -/
def Placed (link : Link) (tab : SymTab) : Prop := ∀ y, SymbolPlaced link y (tab y)

theorem placed_fresh (link : Link) : Placed link .fresh := fun _ => ⟨rfl, rfl, rfl⟩

section Placement

variable {link : Link} {self : Nat} {obj : ObjectFile} {e : SymEntry} {sym sym' : Symbol}

/-- The `switch` of a winning entry defines the symbol, given the entry lies in its
subsection. -/
theorem ObjectFile.definition_definedBy (hw : obj.EntriesWithin) (he : e ∈ obj.entries)
    (h : obj.definition e sym = .ok sym') : sym'.file = sym.file ∧ DefinedBy obj e sym' := by
  unfold ObjectFile.definition at h
  unfold DefinedBy
  split at h
  · cases h; exact ⟨rfl, by simp only [*, and_self]⟩
  · cases h; exact ⟨rfl, by simp only [*, and_self]⟩
  · rename_i ht
    split at h
    · cases h
    · rename_i q hq
      cases h
      obtain ⟨s, hs, hlo, hhi, hsmall⟩ := hw e he ht q hq
      have haddr : obj.subsecAddr q = s.inputAddr := by simp [ObjectFile.subsecAddr, hs]
      rw [ht]
      refine ⟨rfl, rfl, q, s, rfl, hs, ?_⟩
      simp only [haddr, wrapSub_eq_sub hlo (by omega : e.msym.value - s.inputAddr < 2 ^ 64)]
      omega
  · cases h

/-- One update of `ObjectFile::resolve_symbols` keeps its symbol placed: the winning
entry defines it, and a losing one only merges the scope. -/
theorem ObjectFile.resolveSym_placed (hf : link.files self = .object obj)
    (hw : obj.EntriesWithin) (he : e ∈ obj.entries) (hd : ObjectFile.skips e = false)
    (h : obj.resolveSym link self e sym = .ok sym') (hp : SymbolPlaced link e.sym sym) :
    SymbolPlaced link e.sym sym' := by
  dsimp only [ObjectFile.resolveSym] at h
  split at h
  · obtain ⟨hfile, hdef⟩ := ObjectFile.definition_definedBy hw he h
    have hx : e.msym.isExtern = true := by
      simpa [ObjectFile.skips] using (Bool.or_eq_false_iff.mp hd).1
    simp only [SymbolPlaced, hfile, hf]
    exact ⟨e, he, rfl, hx, hdef⟩
  · cases h
    exact hp

/-- One update of `DylibFile::resolve_symbols` keeps its symbol placed. -/
theorem DylibFile.resolveSym_placed {d : DylibFile} {y : Nat} (hf : link.files self = .dylib d)
    (w : Bool) (hp : SymbolPlaced link y sym) :
    SymbolPlaced link y (d.resolveSym link self w sym) := by
  unfold DylibFile.resolveSym
  split
  · simp [SymbolPlaced, hf]
  · exact hp

end Placement

/-- Every object of the link has its entries within their subsections. -/
def EntriesWithinAll (link : Link) : Prop :=
  ∀ f obj, link.files f = .object obj → obj.EntriesWithin

/-- A resolution update of a file of the link keeps the table placed. -/
theorem Update.run_placed {link : Link} {u : Update} {tab tab' : SymTab}
    (hw : EntriesWithinAll link) (hu : ∃ f, u ∈ fileUpdates link f)
    (h : u.run link tab = .ok tab') (hp : Placed link tab) : Placed link tab' := by
  intro y
  by_cases hc : u.target = y ∧ u.defines = true
  · obtain ⟨rfl, hd⟩ := hc
    obtain ⟨f, hu⟩ := hu
    rcases mem_fileUpdates_iff.mp hu with ⟨obj, e, hf, he, rfl⟩ | ⟨d, s, w, hf, -, rfl⟩
    · have hs : ObjectFile.skips e = false := by simpa [Update.defines] using hd
      simp only [Update.run, ObjectFile.resolveEntry, hs] at h
      obtain ⟨sym', hsym, rfl⟩ := except_map_eq_ok.mp h
      simp only [Update.target, Function.update_same]
      exact ObjectFile.resolveSym_placed hf (hw f obj hf) he hs hsym (hp e.sym)
    · cases h
      simp only [Update.target, Function.update_same]
      exact DylibFile.resolveSym_placed hf w (hp s)
  · rw [Update.run_frame h hc]
    exact hp y

/-- `resolve_symbols` over files of the link, in any order, keeps the table placed. -/
theorem resolveAll_placed {link : Link} {order : List Nat} {tab tab' : SymTab}
    (hw : EntriesWithinAll link) (h : resolveAll link order tab = .ok tab')
    (hp : Placed link tab) : Placed link tab' := by
  rw [resolveAll_eq] at h
  refine runUpdates_invariant _ (fun u hu t t' ht hrun => ?_) h hp
  obtain ⟨f, -, hf⟩ := List.mem_flatMap.mp hu
  exact Update.run_placed hw ⟨f, hf⟩ hrun ht

/-- `clear_symbols` keeps the table placed: a cleared symbol is unowned and empty. -/
theorem clearAll_placed (link : Link) (D : List Nat) {tab : SymTab} (hp : Placed link tab) :
    Placed link (clearAll link D tab) := by
  induction D generalizing tab with
  | nil => exact hp
  | cons d D ih =>
    refine ih fun y => ?_
    show SymbolPlaced link y (clearSymbols link d tab y)
    rw [clearSymbols_apply]
    split
    · exact ⟨rfl, rfl, rfl⟩
    · exact hp y

/-- The tables the resolution driver can reach from the fresh one: passes of
`resolve_symbols` over files of the link in any order, and `clear_symbols` on any
files, in any sequence. -/
inductive Reachable (link : Link) : SymTab → Prop where
  | fresh : Reachable link .fresh
  | resolve {tab tab' : SymTab} (order : List Nat) :
      Reachable link tab → resolveAll link order tab = .ok tab' → Reachable link tab'
  | clear {tab : SymTab} (D : List Nat) : Reachable link tab → Reachable link (clearAll link D tab)

/-- On a link of parsed objects, every table the driver reaches is placed: each symbol
an object owns is defined by one of its extern entries for it, a section symbol at the
offset of the entry's address in a subsection of the owner's pool, within its size. -/
theorem reachable_placed {link : Link} {tab : SymTab}
    (hparsed : ∀ f obj, link.files f = .object obj → obj.Parsed) (h : Reachable link tab) :
    Placed link tab := by
  have hw : EntriesWithinAll link := fun f obj hf => (hparsed f obj hf).entriesWithin
  induction h with
  | fresh => exact placed_fresh link
  | resolve order _ hres ih => exact resolveAll_placed hw hres ih
  | clear D _ ih => exact clearAll_placed link D ih

/-- A link of one object: `labelledTextObject` cut by `init_subsections`, entry `k`
naming symbol `k`. -/
def labelledTextLink : Link where
  files
    | 0 => .object (labelledTextObject.toObjectFile (initSubsections labelledTextObject) 0 id)
    | _ => .dylib { priority := 1, exports := [] }
  alive _ := true

theorem labelledTextLink_placed :
    ∃ tab, resolveAll labelledTextLink [0] .fresh = .ok tab ∧ Placed labelledTextLink tab := by
  obtain ⟨tab, h⟩ : ∃ tab, resolveAll labelledTextLink [0] .fresh = .ok tab := ⟨_, rfl⟩
  refine ⟨tab, h, reachable_placed (fun f obj hf => ?_) (.resolve [0] .fresh h)⟩
  match f, hf with
  | 0, hf =>
    cases hf
    exact Or.inl ⟨labelledTextObject, false, _, id, by decide, rfl, rfl, rfl⟩

/-! ### When resolution does not fail -/

/-- The entries resolution takes without an error: each candidate has a known type, and
an `N_SECT` one has a subsection. -/
def ObjectFile.Resolvable (obj : ObjectFile) : Prop :=
  ∀ e ∈ obj.entries, ObjectFile.skips e = false →
    (∀ c, e.msym.type ≠ .other c) ∧ (e.msym.type = .sect → e.subsec.isSome)

section Succeeds

variable {link : Link} {self : Nat} {obj : ObjectFile} {e : SymEntry}

theorem ObjectFile.definition_ok (ht : ∀ c, e.msym.type ≠ .other c)
    (hs : e.msym.type = .sect → e.subsec.isSome) (sym : Symbol) :
    ∃ sym', obj.definition e sym = .ok sym' := by
  unfold ObjectFile.definition
  split
  · exact ⟨_, rfl⟩
  · exact ⟨_, rfl⟩
  · rename_i hsect
    obtain ⟨q, hq⟩ := Option.isSome_iff_exists.mp (hs hsect)
    rw [hq]
    exact ⟨_, rfl⟩
  · rename_i c hc
    exact absurd hc (ht c)

theorem ObjectFile.resolveEntry_ok (hr : obj.Resolvable) (he : e ∈ obj.entries) (tab : SymTab) :
    ∃ tab', obj.resolveEntry link self tab e = .ok tab' := by
  unfold ObjectFile.resolveEntry
  cases hsk : ObjectFile.skips e
  · obtain ⟨ht, hs⟩ := hr e he hsk
    simp only [Bool.false_eq_true, if_false]
    dsimp only [ObjectFile.resolveSym]
    split
    · exact (ObjectFile.definition_ok ht hs _).elim fun _ h => ⟨_, by rw [h]; rfl⟩
    · exact ⟨_, rfl⟩
  · exact ⟨tab, rfl⟩

theorem Update.run_ok (hr : ∀ f obj, link.files f = .object obj → obj.Resolvable) {u : Update}
    (hu : ∃ f, u ∈ fileUpdates link f) (tab : SymTab) : ∃ tab', u.run link tab = .ok tab' := by
  obtain ⟨f, hu⟩ := hu
  rcases mem_fileUpdates_iff.mp hu with ⟨obj, e, hf, he, rfl⟩ | ⟨d, s, w, -, -, rfl⟩
  · exact ObjectFile.resolveEntry_ok (hr f obj hf) he tab
  · exact ⟨_, rfl⟩

/-- On a link whose objects are resolvable, `resolve_symbols` over any files in any
order succeeds from any table. -/
theorem resolveAll_ok (hr : ∀ f obj, link.files f = .object obj → obj.Resolvable)
    (order : List Nat) (tab : SymTab) : ∃ tab', resolveAll link order tab = .ok tab' := by
  rw [resolveAll_eq]
  have hus : ∀ u ∈ order.flatMap (fileUpdates link), ∃ f, u ∈ fileUpdates link f := fun u hu =>
    let ⟨f, _, hf⟩ := List.mem_flatMap.mp hu; ⟨f, hf⟩
  generalize order.flatMap (fileUpdates link) = us at hus
  induction us generalizing tab with
  | nil => exact ⟨tab, rfl⟩
  | cons u us ih =>
    obtain ⟨t, ht⟩ := Update.run_ok hr (hus u (List.mem_cons_self _ _)) tab
    obtain ⟨t', ht'⟩ := ih t fun v hv => hus v (List.mem_cons_of_mem _ hv)
    exact ⟨t', runUpdates_cons.mpr ⟨t, ht, ht'⟩⟩

end Succeeds

/-- Whether resolution can take entry `m` of a Mach-O object when it is a candidate: its
type is known, and an `N_SECT` entry lies in a present section the splitter cuts (any,
without the subsections flag; any but `__TEXT,__cstring`, with it). -/
def externCut (mo : MachObject) (v : Bool) (m : MachSym) : Bool :=
  !m.isExtern || m.isUndef ||
    match m.type with
    | .sect =>
      match mo.sections[m.sect - 1]? with
      | some (some isec) => 0 < m.sect && !(v && isec.hdr.matches "__TEXT" "__cstring")
      | _ => false
    | .other _ => false
    | _ => true

/-- A parsed object whose candidates resolution can take: a native object split from a
Mach-O object whose sections fit and whose entries pass `externCut`, or a bitcode
object. -/
def ObjectFile.ParsedCut (obj : ObjectFile) : Prop :=
  (∃ mo v st syms, SectionsFit mo ∧ (∀ m ∈ mo.machSyms, externCut mo v m = true) ∧
    makeSubsections mo v = .ok st ∧ obj.entries = (mo.toObjectFile st obj.priority syms).entries) ∨
  ∃ syms, obj.entries = (parseLtoSymbols obj.priority obj.isHidden syms).entries

theorem externCut_spec {mo : MachObject} {v : Bool} {m : MachSym} (h : externCut mo v m = true)
    (hx : m.isExtern = true) (hu : m.isUndef = false) :
    (∀ c, m.type ≠ .other c) ∧ (m.type = .sect → ∃ j isec, m.sect = j + 1 ∧
      mo.sections[j]? = some (some isec) ∧
        (v = true → isec.hdr.matches "__TEXT" "__cstring" = false)) := by
  simp only [externCut, hx, hu, Bool.not_true, Bool.false_or] at h
  split at h
  · rename_i ht
    refine ⟨fun c hc => (nomatch ht.symm.trans hc), fun _ => ?_⟩
    split at h
    · rename_i isec hs
      simp only [Bool.and_eq_true, decide_eq_true_eq, Bool.not_eq_true', Bool.and_eq_false_imp] at h
      obtain ⟨hpos, hc⟩ := h
      exact ⟨m.sect - 1, isec, by omega, hs, hc⟩
    · cases h
  · cases h
  · rename_i ht hne
    exact ⟨fun c hc => hne c hc, fun hs => absurd hs (ht)⟩

/-- The splitter binds every candidate `N_SECT` entry of a fitted object whose entries
pass `externCut`. -/
theorem toObjectFile_resolvable {mo : MachObject} {v : Bool} {st : SplitState}
    (h : makeSubsections mo v = .ok st) (hfit : SectionsFit mo)
    (hcut : ∀ m ∈ mo.machSyms, externCut mo v m = true) (priority : Nat) (syms : Nat → Nat) :
    (mo.toObjectFile st priority syms).Resolvable := by
  intro e he hsk
  obtain ⟨⟨k, msym⟩, hkm, rfl⟩ := List.mem_map.mp he
  have hk := List.mk_mem_enum_iff_getElem?.mp hkm
  simp only [ObjectFile.skips, Bool.or_eq_false_iff, Bool.not_eq_false'] at hsk
  obtain ⟨ht, hs⟩ := externCut_spec (hcut msym (List.getElem?_mem hk)) hsk.1 hsk.2
  refine ⟨ht, fun hsect => ?_⟩
  obtain ⟨j, isec, hj, hsec, hc⟩ := hs hsect
  obtain ⟨q, hq⟩ := makeSubsections_binds h hfit hk hsect hj hsec hc
  simp [hq]

theorem ObjectFile.ParsedCut.resolvable {obj : ObjectFile} (h : obj.ParsedCut) : obj.Resolvable := by
  rcases h with ⟨mo, v, st, syms, hfit, hcut, hs, he⟩ | ⟨syms, he⟩
  · intro e hmem
    rw [he] at hmem
    exact toObjectFile_resolvable hs hfit hcut obj.priority syms e hmem
  · intro e hmem _
    rw [he] at hmem
    obtain ⟨⟨y, attr⟩, -, rfl⟩ := List.mem_map.mp hmem
    refine ⟨fun c hc => ?_, fun hc => ?_⟩ <;>
      simp only [ltoMachSym] at hc <;> split at hc <;> cases hc

/-- On a link of parsed objects whose candidates are of known type and, if `N_SECT`,
lie in sections the splitter cuts, `resolve_symbols` never fails: over any files in any
order, from any table. -/
theorem resolveAll_parsed_ok {link : Link}
    (hcut : ∀ f obj, link.files f = .object obj → obj.ParsedCut) (order : List Nat) (tab : SymTab) :
    ∃ tab', resolveAll link order tab = .ok tab' :=
  resolveAll_ok (fun f obj hf => (hcut f obj hf).resolvable) order tab

theorem labelledTextLink_resolves :
    ∃ tab', resolveAll labelledTextLink [0] .fresh = .ok tab' :=
  resolveAll_parsed_ok (fun f obj hf => by
    match f, hf with
    | 0, hf =>
      cases hf
      exact Or.inl ⟨labelledTextObject, false, _, id, by decide, by decide, rfl, rfl⟩) [0] .fresh

end SoldMacho
