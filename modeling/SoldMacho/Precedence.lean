import SoldMacho.Resolve

/-!
# The precedence engine

Resolution as a sequence of locked updates.  `Update` is one loop body of
`ObjectFile::resolve_symbols` or `DylibFile::resolve_symbols`; `resolveAll_eq` says that
resolving files in any order runs their updates back to back, and any interleaving of
the files' loops is another list of the same updates.

The inversion lemma `Update.run_target` says everything one update can do to its
symbol: it wins, and then owns the symbol at its own rank or (a weak dylib export)
above it, or it loses and leaves the owning fields alone.  From it:

* `runUpdates_settled`: if no candidate for `x` ranks below `r`, the candidates ranking
  `r` are exact updates of file `m`, and one of them runs, then `m` owns `x` at rank `r`
  afterwards, whatever the order of the updates;
* `runUpdates_owned`: a candidate of rank below `7 << 24` leaves the symbol owned, and
  ownership is never given back by an update;
* `Update.run_rank_le`: an exact update never raises the symbol's rank, and lowers it
  when it changes the owner.  A weak dylib export is the one update that is not exact,
  and it can raise the rank while taking the symbol.  `runUpdates_rank_le` lifts this to
  runs, and `resolveAll_rank_le` to resolution in any order without weak dylibs.
-/

namespace SoldMacho

/-- The fields `get_rank(sym)` reads. -/
def Symbol.claim (sym : Symbol) : Option Nat × Bool × Bool := (sym.file, sym.isCommon, sym.isWeak)

theorem symRank_congr {link : Link} {s t : Symbol} (h : s.claim = t.claim) :
    symRank link s = symRank link t := by
  simp only [Symbol.claim, Prod.mk.injEq] at h
  simp [symRank, h.1, h.2.1, h.2.2]

/-- A weak candidate never ranks below the strong candidate of the same file. -/
theorem getRank_strong_le_weak (link : Link) (f : Nat) (w : Bool) :
    getRank link f false false ≤ getRank link f false w := by
  rw [getRank_eq, getRank_eq]
  cases w <;> cases link.alive f <;> cases (link.files f).isDylib <;> simp [rankKind]

/-! ### One update -/

/-- What the `switch` of a winning entry writes: the owner and weak flag are kept, and
the common flag becomes the entry's. -/
theorem ObjectFile.definition_claim {obj : ObjectFile} {e : SymEntry} {sym sym' : Symbol}
    (hd : ObjectFile.skips e = false) (h : obj.definition e sym = .ok sym') :
    sym'.claim = (sym.file, e.msym.isCommon, sym.isWeak) := by
  simp only [ObjectFile.skips, Bool.or_eq_false_iff, Bool.not_eq_false'] at hd
  unfold ObjectFile.definition at h
  split at h
  · rename_i ht
    cases h
    simp_all [Symbol.claim, MachSym.isUndef]
  · rename_i ht
    cases h
    simp [Symbol.claim, MachSym.not_isCommon_of_ne_undf (m := e.msym) (by simp [ht])]
  · rename_i ht
    split at h
    · cases h
    · cases h
      simp [Symbol.claim, MachSym.not_isCommon_of_ne_undf (m := e.msym) (by simp [ht])]
  · cases h

theorem ObjectFile.resolveSym_spec {link : Link} {self : Nat} {obj : ObjectFile} {e : SymEntry}
    {sym sym' : Symbol} (hd : ObjectFile.skips e = false)
    (h : obj.resolveSym link self e sym = .ok sym') :
    let r := getRank link self e.msym.isCommon (descHas e.msym.desc N_WEAK_DEF)
    (r < symRank link sym ∧ sym'.file = some self ∧ symRank link sym' = r) ∨
      (symRank link sym ≤ r ∧ sym'.claim = sym.claim) := by
  intro r
  have hsc : symRank link { sym with scope := obj.mergeScope sym e.msym } = symRank link sym :=
    symRank_congr rfl
  unfold ObjectFile.resolveSym at h
  simp only [hsc] at h
  split at h
  · rename_i hlt
    have hc := ObjectFile.definition_claim hd h
    simp only [Symbol.claim, Prod.mk.injEq] at hc
    refine Or.inl ⟨hlt, hc.1, ?_⟩
    rw [symRank_some link sym' hc.1, hc.2.1, hc.2.2]
  · rename_i hge
    cases h
    exact Or.inr ⟨Nat.le_of_not_lt hge, rfl⟩

theorem DylibFile.resolveSym_spec (link : Link) (self : Nat) (d : DylibFile) (w : Bool)
    (sym : Symbol) :
    let sym' := d.resolveSym link self w sym
    let r := getRank link self false false
    (r < symRank link sym ∧ sym'.file = some self ∧ r ≤ symRank link sym' ∧
        ((d.isWeak || w) = false → symRank link sym' = r)) ∨
      (symRank link sym ≤ r ∧ sym' = sym) := by
  intro sym' r
  by_cases hlt : getRank link self false false < symRank link sym
  · have hf : sym'.file = some self := by simp only [sym', DylibFile.resolveSym, if_pos hlt]
    have hs : symRank link sym' = getRank link self false (d.isWeak || w) := by
      simp only [symRank, hf]
      simp only [sym', DylibFile.resolveSym, if_pos hlt]
    refine Or.inl ⟨hlt, hf, ?_, fun hw => ?_⟩
    · rw [hs]; exact getRank_strong_le_weak link self _
    · rw [hs, hw]
  · exact Or.inr ⟨Nat.le_of_not_lt hlt, by simp only [sym', DylibFile.resolveSym, if_neg hlt]⟩

/-- One locked update of the resolver: entry `e` of object `f`, or export `s` of dylib `f`
with its `is_weak_symbol` bit. -/
inductive Update where
  | object (f : Nat) (obj : ObjectFile) (e : SymEntry)
  | dylib (f : Nat) (d : DylibFile) (s : Nat) (weakSym : Bool)
  deriving DecidableEq, Repr

namespace Update

/-- The file making the update. -/
def file : Update → Nat
  | object f _ _ => f
  | dylib f _ _ _ => f

/-- The symbol the update locks. -/
def target : Update → Nat
  | object _ _ e => e.sym
  | dylib _ _ s _ => s

/-- Whether the update is a candidate: objects skip undefined and local entries. -/
def defines : Update → Bool
  | object _ _ e => !ObjectFile.skips e
  | dylib _ _ _ _ => true

/-- The rank the update compares with the incumbent's. -/
def rank (link : Link) : Update → Nat
  | object f _ e => getRank link f e.msym.isCommon (descHas e.msym.desc N_WEAK_DEF)
  | dylib f _ _ _ => getRank link f false false

/-- Whether a winning update leaves its symbol ranked at its own rank: an object entry
always, a dylib export only when stored as non-weak. -/
def exact : Update → Bool
  | object _ _ _ => true
  | dylib _ d _ w => !(d.isWeak || w)

/-- Running the update on the symbol table. -/
def run (link : Link) (tab : SymTab) : Update → Except ResolveError SymTab
  | object f obj e => obj.resolveEntry link f tab e
  | dylib f d s w => .ok (Function.update tab s (d.resolveSym link f w (tab s)))

/-- An update leaves every other symbol alone, and a non-candidate changes nothing. -/
theorem run_frame {link : Link} {u : Update} {tab tab' : SymTab} (h : u.run link tab = .ok tab')
    {y : Nat} (hy : ¬(u.target = y ∧ u.defines = true)) : tab' y = tab y := by
  cases u with
  | object f obj e =>
    simp only [run, ObjectFile.resolveEntry] at h
    split at h
    · cases h; rfl
    · rename_i hs
      obtain ⟨sym', -, rfl⟩ := except_map_eq_ok.mp h
      exact Function.update_noteq (fun hye => hy ⟨hye.symm, by simpa [defines] using hs⟩) _ _
  | dylib f d s w =>
    cases h
    exact Function.update_noteq (fun hye => hy ⟨hye.symm, rfl⟩) _ _

/-- The inversion lemma: a candidate either wins, owning its symbol at its rank or
above it (exactly at it when `exact`), or loses and leaves the owning fields alone. -/
theorem run_target {link : Link} {u : Update} {tab tab' : SymTab} (h : u.run link tab = .ok tab')
    (hd : u.defines = true) :
    (u.rank link < symRank link (tab u.target) ∧ (tab' u.target).file = some u.file ∧
        u.rank link ≤ symRank link (tab' u.target) ∧
        (u.exact = true → symRank link (tab' u.target) = u.rank link)) ∨
      (symRank link (tab u.target) ≤ u.rank link ∧ (tab' u.target).claim = (tab u.target).claim) := by
  cases u with
  | object f obj e =>
    have hs : ObjectFile.skips e = false := by simpa [defines] using hd
    simp only [run, ObjectFile.resolveEntry, hs] at h
    obtain ⟨sym', hsym, rfl⟩ := except_map_eq_ok.mp h
    simp only [target, rank, file, exact, Function.update_same]
    rcases ObjectFile.resolveSym_spec hs hsym with ⟨hlt, hf, hr⟩ | hlose
    · exact Or.inl ⟨hlt, hf, Nat.le_of_eq hr.symm, fun _ => hr⟩
    · exact Or.inr hlose
  | dylib f d s w =>
    cases h
    simp only [target, rank, file, exact, Function.update_same, Bool.not_eq_true']
    rcases DylibFile.resolveSym_spec link f d w (tab s) with ⟨hlt, hf, hle, hx⟩ | ⟨hge, heq⟩
    · exact Or.inl ⟨hlt, hf, hle, hx⟩
    · exact Or.inr ⟨hge, by rw [heq]⟩

/-- An exact update never raises the rank of any symbol, and lowers it strictly where it
changes the owner. -/
theorem run_rank_le {link : Link} {u : Update} {tab tab' : SymTab}
    (h : u.run link tab = .ok tab') (hex : u.exact = true) (y : Nat) :
    symRank link (tab' y) ≤ symRank link (tab y) ∧
      ((tab' y).file ≠ (tab y).file → symRank link (tab' y) < symRank link (tab y)) := by
  by_cases hc : u.target = y ∧ u.defines = true
  · obtain ⟨rfl, hd⟩ := hc
    rcases run_target h hd with ⟨hlt, -, -, hx⟩ | ⟨-, hcl⟩
    · rw [hx hex]
      exact ⟨Nat.le_of_lt hlt, fun _ => hlt⟩
    · have hr := @symRank_congr link _ _ hcl
      simp only [Symbol.claim, Prod.mk.injEq] at hcl
      exact ⟨Nat.le_of_eq hr, fun hne => absurd hcl.1 hne⟩
  · rw [run_frame h hc]
    exact ⟨Nat.le_refl _, fun hne => absurd rfl hne⟩

end Update

/-- The weak export of dylib 0 is ranked as a strong dylib definition, `3 << 24` plus
priority 1, and so takes symbol 0 from dylib 1's plain export (`3 << 24` plus
priority 2); stored weak, the symbol then ranks `4 << 24` plus 1, above the rank it
replaced. -/
theorem resolve_weak_export_raises_rank :
    ∃ tab tab', resolveSymbols weakExportLink 1 .fresh = .ok tab ∧
      resolveSymbols weakExportLink 0 tab = .ok tab' ∧
      (tab 0).file = some 1 ∧ symRank weakExportLink (tab 0) = 3 * 2 ^ 24 + 2 ∧
      (tab' 0).file = some 0 ∧ symRank weakExportLink (tab' 0) = 4 * 2 ^ 24 + 1 :=
  ⟨_, _, rfl, rfl, rfl, rfl, rfl, rfl⟩

/-! ### Runs of updates -/

/-- The updates `resolve_symbols` makes on file `f`, in loop order. -/
def fileUpdates (link : Link) (f : Nat) : List Update :=
  match link.files f with
  | .object obj => obj.entries.map (.object f obj)
  | .dylib d => d.exports.map fun p => .dylib f d p.1 p.2

theorem mem_fileUpdates_iff {link : Link} {f : Nat} {u : Update} :
    u ∈ fileUpdates link f ↔
      (∃ obj e, link.files f = .object obj ∧ e ∈ obj.entries ∧ u = .object f obj e) ∨
        ∃ d s w, link.files f = .dylib d ∧ (s, w) ∈ d.exports ∧ u = .dylib f d s w := by
  unfold fileUpdates
  cases link.files f with
  | object obj => simp [eq_comm]
  | dylib d => simp [eq_comm]

/-- Running updates one after another. -/
def runUpdates (link : Link) (us : List Update) (tab : SymTab) : Except ResolveError SymTab :=
  us.foldlM (fun t u => u.run link t) tab

@[simp] theorem runUpdates_nil (link : Link) (tab : SymTab) : runUpdates link [] tab = .ok tab := rfl

theorem runUpdates_cons {link : Link} {u : Update} {us : List Update} {tab tab' : SymTab} :
    runUpdates link (u :: us) tab = .ok tab' ↔
      ∃ t, u.run link tab = .ok t ∧ runUpdates link us t = .ok tab' := by
  simp only [runUpdates, List.foldlM_cons]
  exact except_bind_eq_ok

theorem foldlM_ok_eq_ok_foldl {ε σ α : Type} (g : σ → α → σ) (l : List α) (t : σ) :
    l.foldlM (fun t a => (Except.ok (g t a) : Except ε σ)) t = .ok (l.foldl g t) := by
  induction l generalizing t with
  | nil => rfl
  | cons a l ih => exact ih (g t a)

theorem resolveSymbols_eq (link : Link) (f : Nat) (tab : SymTab) :
    resolveSymbols link f tab = runUpdates link (fileUpdates link f) tab := by
  unfold resolveSymbols fileUpdates runUpdates
  cases link.files f with
  | object obj => simp only [ObjectFile.resolveSymbols, List.foldlM_map]; rfl
  | dylib d =>
    simp only [DylibFile.resolveSymbols, List.foldlM_map]
    exact (foldlM_ok_eq_ok_foldl _ _ _).symm

/-- Resolving files in order runs their updates back to back. -/
theorem resolveAll_eq (link : Link) (order : List Nat) (tab : SymTab) :
    resolveAll link order tab = runUpdates link (order.flatMap (fileUpdates link)) tab := by
  induction order generalizing tab with
  | nil => rfl
  | cons f order ih =>
    simp only [resolveAll, List.foldlM_cons, List.flatMap_cons, runUpdates, List.foldlM_append]
    rw [← runUpdates, ← resolveSymbols_eq]
    congr 1
    funext t
    exact ih t

/-- An invariant of every update of a run is an invariant of the run. -/
theorem runUpdates_invariant {link : Link} {us : List Update} {tab tab' : SymTab}
    (P : SymTab → Prop) (hstep : ∀ u ∈ us, ∀ t t', P t → u.run link t = .ok t' → P t')
    (h : runUpdates link us tab = .ok tab') (hP : P tab) : P tab' := by
  induction us generalizing tab with
  | nil => cases h; exact hP
  | cons u us ih =>
    obtain ⟨t, hu, hrest⟩ := runUpdates_cons.mp h
    exact ih (fun v hv => hstep v (List.mem_cons_of_mem _ hv)) hrest
      (hstep u (List.mem_cons_self _ _) _ _ hP hu)

/-! ### The least candidate owns the symbol -/

section Least

variable {link : Link} {x m r : Nat}

/-- File `m` owns symbol `x` at rank `r`. -/
def Settled (link : Link) (x m r : Nat) (tab : SymTab) : Prop :=
  (tab x).file = some m ∧ symRank link (tab x) = r

/-- Symbol `x` ranks above `r`, or is settled on `m` at `r`. -/
def Open (link : Link) (x m r : Nat) (tab : SymTab) : Prop :=
  r < symRank link (tab x) ∨ Settled link x m r tab

/-- No candidate for `x` ranks below `r`, and those ranking `r` are exact updates of `m`. -/
def LeastAt (link : Link) (x m r : Nat) (u : Update) : Prop :=
  u.target = x → u.defines = true →
    r ≤ u.rank link ∧ (u.rank link = r → u.file = m ∧ u.exact = true)

theorem settled_step {u : Update} {tab tab' : SymTab} (hu : LeastAt link x m r u)
    (h : u.run link tab = .ok tab') (hs : Settled link x m r tab) : Settled link x m r tab' := by
  by_cases hc : u.target = x ∧ u.defines = true
  · obtain ⟨hx, hd⟩ := hc
    subst hx
    rcases Update.run_target h hd with ⟨hlt, -⟩ | ⟨-, hcl⟩
    · have := (hu rfl hd).1
      have := hs.2
      omega
    · simp only [Symbol.claim, Prod.mk.injEq] at hcl
      exact ⟨hcl.1.trans hs.1, (symRank_congr (by simp [Symbol.claim, hcl])).trans hs.2⟩
  · rw [Settled, Update.run_frame h hc]
    exact hs

theorem open_step {u : Update} {tab tab' : SymTab} (hu : LeastAt link x m r u)
    (h : u.run link tab = .ok tab') (ho : Open link x m r tab) : Open link x m r tab' := by
  rcases ho with ho | hs
  · by_cases hc : u.target = x ∧ u.defines = true
    · obtain ⟨hx, hd⟩ := hc
      subst hx
      obtain ⟨hle, hex⟩ := hu rfl hd
      rcases Update.run_target h hd with ⟨-, hf, hge, hx⟩ | ⟨-, hcl⟩
      · rcases Nat.eq_or_lt_of_le hle with heq | hlt
        · obtain ⟨hm, he⟩ := hex heq.symm
          exact Or.inr ⟨hm ▸ hf, (hx he).trans heq.symm⟩
        · exact Or.inl (Nat.lt_of_lt_of_le hlt hge)
      · exact Or.inl ((symRank_congr hcl).symm ▸ ho)
    · left
      rw [Update.run_frame h hc]
      exact ho
  · exact Or.inr (settled_step hu h hs)

theorem settled_of_hit {u : Update} {tab tab' : SymTab} (hu : LeastAt link x m r u)
    (hx : u.target = x) (hd : u.defines = true) (hr : u.rank link = r)
    (h : u.run link tab = .ok tab') (ho : Open link x m r tab) : Settled link x m r tab' := by
  rcases ho with ho | hs
  · subst hx
    obtain ⟨hm, he⟩ := (hu rfl hd).2 hr
    rcases Update.run_target h hd with ⟨-, hf, -, hex⟩ | ⟨hge, -⟩
    · exact ⟨hm ▸ hf, (hex he).trans hr⟩
    · omega
  · exact settled_step hu h hs

/-- Whatever the order of the updates, the least candidate's file owns the symbol. -/
theorem runUpdates_settled {us : List Update} {tab tab' : SymTab}
    (hus : ∀ u ∈ us, LeastAt link x m r u)
    (hhit : ∃ u ∈ us, u.target = x ∧ u.defines = true ∧ u.rank link = r)
    (h : runUpdates link us tab = .ok tab') (ho : Open link x m r tab) :
    Settled link x m r tab' := by
  induction us generalizing tab with
  | nil => simp at hhit
  | cons u us ih =>
    obtain ⟨t, hu, hrest⟩ := runUpdates_cons.mp h
    have hleast := hus u (List.mem_cons_self _ _)
    by_cases hc : u.target = x ∧ u.defines = true ∧ u.rank link = r
    · exact runUpdates_invariant (Settled link x m r)
        (fun v hv _ _ hs hrun => settled_step (hus v (List.mem_cons_of_mem _ hv)) hrun hs) hrest
        (settled_of_hit hleast hc.1 hc.2.1 hc.2.2 hu ho)
    · obtain ⟨v, hv, hvx⟩ := hhit
      have hv' : v ∈ us := by
        rcases List.mem_cons.mp hv with rfl | hv'
        · exact absurd hvx hc
        · exact hv'
      exact ih (fun w hw => hus w (List.mem_cons_of_mem _ hw)) ⟨v, hv', hvx⟩ hrest
        (open_step hleast hu ho)

end Least

/-! ### Ownership is never given back -/

/-- An update keeps an owned symbol owned. -/
theorem Update.run_owned {link : Link} {u : Update} {tab tab' : SymTab}
    (h : u.run link tab = .ok tab') {y : Nat} (hy : (tab y).file.isSome) : (tab' y).file.isSome := by
  by_cases hc : u.target = y ∧ u.defines = true
  · obtain ⟨rfl, hd⟩ := hc
    rcases Update.run_target h hd with ⟨-, hf, -⟩ | ⟨-, hcl⟩
    · simp [hf]
    · simp only [Symbol.claim, Prod.mk.injEq] at hcl
      rw [hcl.1]; exact hy
  · rw [Update.run_frame h hc]
    exact hy

/-- A candidate ranking below the unowned rank leaves its symbol owned. -/
theorem Update.run_owns {link : Link} {u : Update} {tab tab' : SymTab}
    (h : u.run link tab = .ok tab') (hd : u.defines = true) (hr : u.rank link < 7 * 2 ^ 24) :
    (tab' u.target).file.isSome := by
  rcases Update.run_target h hd with ⟨-, hf, -⟩ | ⟨hge, hcl⟩
  · simp [hf]
  · simp only [Symbol.claim, Prod.mk.injEq] at hcl
    rw [hcl.1]
    exact symRank_lt_unowned (Nat.lt_of_le_of_lt hge hr)

/-- After a run holding a candidate for `y` of rank below `7 << 24`, `y` is owned. -/
theorem runUpdates_owned {link : Link} {us : List Update} {tab tab' : SymTab} {y : Nat}
    (hhit : ∃ u ∈ us, u.target = y ∧ u.defines = true ∧ u.rank link < 7 * 2 ^ 24)
    (h : runUpdates link us tab = .ok tab') : (tab' y).file.isSome := by
  induction us generalizing tab with
  | nil => simp at hhit
  | cons u us ih =>
    obtain ⟨t, hu, hrest⟩ := runUpdates_cons.mp h
    by_cases hc : u.target = y ∧ u.defines = true ∧ u.rank link < 7 * 2 ^ 24
    · obtain ⟨rfl, hd, hr⟩ := hc
      exact runUpdates_invariant (fun t => (t u.target).file.isSome)
        (fun v _ _ _ hs hrun => Update.run_owned hrun hs) hrest (Update.run_owns hu hd hr)
    · obtain ⟨v, hv, hvy⟩ := hhit
      have hv' : v ∈ us := by
        rcases List.mem_cons.mp hv with rfl | hv'
        · exact absurd hvy hc
        · exact hv'
      exact ih ⟨v, hv', hvy⟩ hrest

/-- A run of exact updates never raises a symbol's rank, and lowers it strictly when the
symbol ends with another owner. -/
theorem runUpdates_rank_le {link : Link} {us : List Update} {tab tab' : SymTab}
    (hex : ∀ u ∈ us, u.exact = true) (h : runUpdates link us tab = .ok tab') (y : Nat) :
    symRank link (tab' y) ≤ symRank link (tab y) ∧
      ((tab' y).file ≠ (tab y).file → symRank link (tab' y) < symRank link (tab y)) := by
  induction us generalizing tab with
  | nil => cases h; exact ⟨Nat.le_refl _, fun hne => absurd rfl hne⟩
  | cons u us ih =>
    obtain ⟨t, hu, hrest⟩ := runUpdates_cons.mp h
    obtain ⟨h1, h1s⟩ := Update.run_rank_le hu (hex u (List.mem_cons_self _ _)) y
    obtain ⟨h2, h2s⟩ := ih (fun v hv => hex v (List.mem_cons_of_mem _ hv)) hrest
    refine ⟨Nat.le_trans h2 h1, fun hne => ?_⟩
    -- the owner changed in the first update or in the rest of the run
    by_cases ht : (t y).file = (tab y).file
    · exact Nat.lt_of_lt_of_le (h2s (by rwa [ht])) h1
    · exact Nat.lt_of_le_of_lt h2 (h1s ht)

/-- Resolving files in any order, when no dylib among them is weak or exports a weak
symbol, never raises the rank `get_rank(sym)` of a symbol, and a symbol whose owner
changes ends at a strictly lower rank. -/
theorem resolveAll_rank_le {link : Link} {order : List Nat} {tab tab' : SymTab}
    (hweak : ∀ f ∈ order, ∀ d, link.files f = .dylib d →
      d.isWeak = false ∧ ∀ p ∈ d.exports, p.2 = false)
    (h : resolveAll link order tab = .ok tab') (y : Nat) :
    symRank link (tab' y) ≤ symRank link (tab y) ∧
      ((tab' y).file ≠ (tab y).file → symRank link (tab' y) < symRank link (tab y)) := by
  rw [resolveAll_eq] at h
  refine runUpdates_rank_le (fun u hu => ?_) h y
  obtain ⟨f, hf, hu⟩ := List.mem_flatMap.mp hu
  rcases mem_fileUpdates_iff.mp hu with ⟨obj, e, -, -, rfl⟩ | ⟨d, s, w, hd, hsw, rfl⟩
  · rfl
  · obtain ⟨hdw, hexp⟩ := hweak f hf d hd
    simpa [Update.exact, hdw] using hexp _ hsw

/-- The dylib of `commonAndDylibLink`, resolved after the object, takes symbol 0 from the
object's common definition and lowers its rank. -/
theorem commonAndDylib_rank_lowered :
    ∃ tab tab', resolveAll commonAndDylibLink [0] .fresh = .ok tab ∧
      resolveAll commonAndDylibLink [1] tab = .ok tab' ∧
      symRank commonAndDylibLink (tab' 0) ≤ symRank commonAndDylibLink (tab 0) ∧
      ((tab' 0).file ≠ (tab 0).file →
        symRank commonAndDylibLink (tab' 0) < symRank commonAndDylibLink (tab 0)) := by
  have h : resolveAll commonAndDylibLink [0] .fresh >>= resolveAll commonAndDylibLink [1] =
      .ok _ := rfl
  obtain ⟨tab, h0, h1⟩ := except_bind_eq_ok.mp h
  refine ⟨tab, _, h0, h1, resolveAll_rank_le (fun f hf d hd => ?_) h1 0⟩
  rw [List.mem_singleton] at hf
  subst hf
  cases hd
  exact ⟨rfl, by decide⟩

end SoldMacho
