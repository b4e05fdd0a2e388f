import SoldMacho.Trie
import SoldMacho.Rank
import Mathlib.Data.List.Sort
import Mathlib.Logic.Relation

/-!
# Creating a dylib

`DylibFile::create` reads a dylib, from a text stub (`parse_tapi`) or a Mach-O file
(`parse_dylib`, which reads the export trie), then creates each library it re-exports,
found by `find_external_lib`, and merges the child's exports and weak exports into its
own.  Last it lists its symbols: every export, then every weak export that is not also
an export, marked weak.

The recursion has no visited set, so it is modelled with a bound on nested calls:
`createDylib` gives `none` when the bound runs out, which on two stubs that re-export
each other it does whatever the bound.  Whenever it returns, the exports are those of
every library reachable through re-exports, and each name is listed once.

A `std::set` of names is a duplicate-free list of its elements in the order the set
iterates them; `std::set::merge` moves in the elements the set lacks, so it is a union.
-/

namespace SoldMacho

/-! ### Sets of names -/

/-- A `std::set<std::string_view>` of names: its elements, each once, in the order the set
iterates them. -/
structure NameSet where
  elems : List (List UInt8)
  nodup : elems.Nodup

namespace NameSet

/-- The empty set. -/
def empty : NameSet := ⟨[], List.nodup_nil⟩

/-- `std::set::insert`: a name the set lacks goes in at its place in the order. -/
def insert (s : NameSet) (x : List UInt8) : NameSet :=
  if h : x ∈ s.elems then s
  else ⟨List.orderedInsert (· ≤ ·) x s.elems,
    (List.perm_orderedInsert _ x s.elems).nodup_iff.mpr (List.nodup_cons.mpr ⟨h, s.nodup⟩)⟩

/-- `std::set::merge`: each element of `t` the set lacks moves into it. -/
def merge (s t : NameSet) : NameSet := t.elems.foldl insert s

/-- `std::set::contains`. -/
def contains (s : NameSet) (x : List UInt8) : Bool := decide (x ∈ s.elems)

/-- The set of the names of a list. -/
def ofList (l : List (List UInt8)) : NameSet := l.foldl insert empty

theorem mem_insert {s : NameSet} {x y : List UInt8} : y ∈ (s.insert x).elems ↔ y = x ∨ y ∈ s.elems := by
  unfold insert
  split
  · rename_i h
    exact ⟨Or.inr, fun hy => hy.elim (fun h' => h' ▸ h) id⟩
  · simp [(List.perm_orderedInsert _ x s.elems).mem_iff]

theorem mem_foldl_insert {y : List UInt8} :
    ∀ (l : List (List UInt8)) (s : NameSet), y ∈ (l.foldl insert s).elems ↔ y ∈ s.elems ∨ y ∈ l
  | [], _ => by simp
  | x :: l, s => by
    rw [List.foldl_cons, mem_foldl_insert l, mem_insert, List.mem_cons]
    tauto

theorem mem_merge {s t : NameSet} {y : List UInt8} :
    y ∈ (s.merge t).elems ↔ y ∈ s.elems ∨ y ∈ t.elems :=
  mem_foldl_insert t.elems s

theorem mem_ofList {l : List (List UInt8)} {y : List UInt8} : y ∈ (ofList l).elems ↔ y ∈ l := by
  simp [ofList, mem_foldl_insert, empty]

end NameSet

/-! ### Reading one dylib -/

/-- The fields of a `DylibFile` that `create` fills before listing its symbols. -/
structure DylibInfo where
  installName : String := ""
  reexportedLibs : List String := []
  exports : NameSet := NameSet.empty
  weakExports : NameSet := NameSet.empty

/-- The names `read_trie` reads go to `weak_exports` when their flags are
`EXPORT_SYMBOL_FLAGS_WEAK_DEFINITION`, to `exports` otherwise. -/
def DylibInfo.addNames (d : DylibInfo) (names : TrieNames) : DylibInfo :=
  names.foldl (fun d (x, weak) =>
    if weak then { d with weakExports := d.weakExports.insert x }
    else { d with exports := d.exports.insert x }) d

/-- A load command of a dylib as `parse_dylib` reads it: the name strings are those at
`nameoff`, the trie offsets are `export_off` and `dataoff`. -/
inductive DylibLoadCommand where
  | idDylib (name : String)
  | dyldInfoOnly (exportOff : Nat)
  | dyldExportsTrie (dataoff : Nat)
  | reexportDylib (name : String)
  | other (cmd : Nat)
  deriving DecidableEq, Repr

/-- One load command of `DylibFile::parse_dylib` on a dylib of bytes `data`; `none` when
`read_trie` does not return. -/
def parseDylibCommand (data : List UInt8) (d : DylibInfo) : DylibLoadCommand → Option DylibInfo
  | .idDylib name => some { d with installName := name }
  | .dyldInfoOnly off =>
    if off ≠ 0 then (readExportTrie (data.drop off)).map d.addNames else some d
  | .dyldExportsTrie off => (readExportTrie (data.drop off)).map d.addNames
  | .reexportDylib name => some { d with reexportedLibs := d.reexportedLibs ++ [name] }
  | .other _ => some d

/-- `DylibFile::parse_dylib`: the load commands in order. -/
def parseDylib (data : List UInt8) (cmds : List DylibLoadCommand) : Option DylibInfo :=
  cmds.foldlM (parseDylibCommand data) {}

/-- What `parse_tbd`, outside the sources, reads from a text stub. -/
structure TextDylib where
  installName : String
  reexportedLibs : List String
  exports : NameSet
  weakExports : NameSet

/-- The contents of a file given to `create`, by `get_file_type`. -/
inductive DylibSource where
  | tapi (tbd : TextDylib)
  | machDylib (data : List UInt8) (cmds : List DylibLoadCommand)
  | other

/-- A `MappedFile`: its name and contents. -/
structure MappedFile where
  name : String
  contents : DylibSource

/-- The `Fatal` errors of `DylibFile::create`. -/
inductive DylibError where
  /-- `<name>: is not a dylib` -/
  | notADylib (name : String)
  /-- `<install_name>: cannot open reexported library <path>` -/
  | cannotOpenReexport (installName path : String)
  deriving DecidableEq, Repr

/-- The file-type switch of `create`: `parse_tapi` or `parse_dylib`; `none` when
`read_trie` does not return. -/
def parseDylibFile (mf : MappedFile) : Option (Except DylibError DylibInfo) :=
  match mf.contents with
  | .tapi tbd => some (.ok { installName := tbd.installName, reexportedLibs := tbd.reexportedLibs,
                             exports := tbd.exports, weakExports := tbd.weakExports })
  | .machDylib data cmds => (parseDylib data cmds).map .ok
  | .other => some (.error (.notADylib mf.name))

/-! ### Finding and creating re-exported libraries -/

/-- The files `MappedFile::open` finds, and the `-syslibroot` directories. -/
structure LibContext where
  openFile : String → Option MappedFile
  syslibroot : List String

/-- `std::string::starts_with`, on the characters. -/
def startsWithChar (s : String) (c : Char) : Bool := s.toList.head? == some c

/-- `std::string::ends_with`. -/
def endsWithStr (s suffix : String) : Bool := suffix.toList.isSuffixOf s.toList

/-- `find_external_lib`: a relative path is opened as it is.  An absolute one is looked up
under each root in turn: a `.tbd` path as it is; a `.dylib` path first as the `.tbd` of
its stem, then as it is; then, but not for a `.tbd` path, with `.tbd` and with `.dylib`
appended. -/
def findExternalLib (ctx : LibContext) (path : String) : Option MappedFile :=
  if !startsWithChar path '/' then ctx.openFile path
  else ctx.syslibroot.findSome? fun root =>
    if endsWithStr path ".tbd" then ctx.openFile (root ++ path)
    else
      (((if endsWithStr path ".dylib" then
          (ctx.openFile (root ++ path.dropRight 6 ++ ".tbd")).orElse
            fun _ => ctx.openFile (root ++ path)
        else none).orElse fun _ => ctx.openFile (root ++ path ++ ".tbd")).orElse
          fun _ => ctx.openFile (root ++ path ++ ".dylib"))

/-- The exports and weak exports of `c` merged into those of `d`. -/
def DylibInfo.mergeChild (d c : DylibInfo) : DylibInfo :=
  { d with exports := d.exports.merge c.exports, weakExports := d.weakExports.merge c.weakExports }

/-- The loop of `create` over `reexported_libs`: each library is found, created by
`visit`, and merged in; a library not found stops the link under the install name. -/
def mergeReexports (ctx : LibContext) (visit : MappedFile → Option (Except DylibError DylibInfo))
    (installName : String) : List String → DylibInfo → Option (Except DylibError DylibInfo)
  | [], d => some (.ok d)
  | path :: rest, d =>
    match findExternalLib ctx path with
    | none => some (.error (.cannotOpenReexport installName path))
    | some mf =>
      match visit mf with
      | none => none
      | some (.error e) => some (.error e)
      | some (.ok c) => mergeReexports ctx visit installName rest (d.mergeChild c)

/-- The loops that end `create`: `syms` and `is_weak_symbol`, pushed together: every
export, then every weak export that is not also an export. -/
def DylibInfo.syms (d : DylibInfo) : List (List UInt8 × Bool) :=
  d.exports.elems.map (·, false) ++
    (d.weakExports.elems.filter fun s => !d.exports.contains s).map (·, true)

/-- A `DylibFile` as `create` returns it. -/
structure CreatedDylib where
  info : DylibInfo
  syms : List (List UInt8 × Bool)

/-- `DylibFile::create` on `mf`, within `fuel` nested calls: `none` when the bound runs
out (the source recurses without one) or `read_trie` does not return. -/
def createDylib (ctx : LibContext) : (fuel : Nat) → MappedFile → Option (Except DylibError CreatedDylib)
  | 0, _ => none
  | fuel + 1, mf =>
    match parseDylibFile mf with
    | none => none
    | some (.error e) => some (.error e)
    | some (.ok d) =>
      match mergeReexports ctx (fun mf => (createDylib ctx fuel mf).map (·.map (·.info)))
          d.installName d.reexportedLibs d with
      | none => none
      | some (.error e) => some (.error e)
      | some (.ok d) => some (.ok { info := d, syms := d.syms })

/-- The dylib as resolution sees it, at link priority `priority`, with each name interned
by `intern`. -/
def CreatedDylib.toDylibFile (D : CreatedDylib) (priority : Nat) (isWeak : Bool)
    (intern : List UInt8 → Nat) : DylibFile where
  priority := priority
  isWeak := isWeak
  exports := D.syms.map fun (x, w) => (intern x, w)

/-! ### What `create` returns -/

/-- `g` is a library `f` re-exports: `find_external_lib` finds it for one of `f`'s
`reexported_libs`. -/
def Reexports (ctx : LibContext) (f g : MappedFile) : Prop :=
  ∃ d, parseDylibFile f = some (.ok d) ∧ ∃ path ∈ d.reexportedLibs, findExternalLib ctx path = some g

section Create

variable {ctx : LibContext}

/-- When the re-export loop finishes, every library was found and created, and each set
that `mergeChild` merges (`sel`) is the dylib's own united with the libraries'. -/
theorem mergeReexports_ok {visit : MappedFile → Option (Except DylibError DylibInfo)}
    {name : String} (sel : DylibInfo → NameSet)
    (hsel : ∀ d c, sel (d.mergeChild c) = (sel d).merge (sel c)) :
    ∀ {paths : List String} {d d' : DylibInfo},
      mergeReexports ctx visit name paths d = some (.ok d') →
      (∀ path ∈ paths, ∃ mf c, findExternalLib ctx path = some mf ∧ visit mf = some (.ok c)) ∧
      ∀ x, x ∈ (sel d').elems ↔ x ∈ (sel d).elems ∨ ∃ path ∈ paths, ∃ mf c,
        findExternalLib ctx path = some mf ∧ visit mf = some (.ok c) ∧ x ∈ (sel c).elems
  | [], d, d', h => by
    cases h
    exact ⟨fun _ h => (nomatch h), fun _ => ⟨.inl, fun | .inl h => h | .inr ⟨_, h, _⟩ => nomatch h⟩⟩
  | path :: rest, d, d', h => by
    simp only [mergeReexports] at h
    split at h
    · cases h
    · rename_i mf hmf
      split at h
      · cases h
      · cases h
      · rename_i c hc
        obtain ⟨hall, hx⟩ := mergeReexports_ok sel hsel h
        refine ⟨fun p hp => ?_, fun x => ?_⟩
        · rcases List.mem_cons.mp hp with rfl | hp
          · exact ⟨mf, c, hmf, hc⟩
          · exact hall p hp
        · rw [hx, hsel, NameSet.mem_merge]
          constructor
          · rintro ((h | h) | ⟨p, hp, mf', c', h1, h2, h3⟩)
            · exact .inl h
            · exact .inr ⟨path, List.mem_cons_self _ _, mf, c, hmf, hc, h⟩
            · exact .inr ⟨p, List.mem_cons_of_mem _ hp, mf', c', h1, h2, h3⟩
          · rintro (h | ⟨p, hp, mf', c', h1, h2, h3⟩)
            · exact .inl (.inl h)
            · rcases List.mem_cons.mp hp with rfl | hp
              · rw [hmf] at h1
                cases h1
                rw [hc] at h2
                cases h2
                exact .inl (.inr h3)
              · exact .inr ⟨p, hp, mf', c', h1, h2, h3⟩

/-- What a returning `create` did: it parsed the file, finished the re-export loop, and
listed the symbols of the result. -/
theorem createDylib_ok {fuel : Nat} {mf : MappedFile} {D : CreatedDylib}
    (h : createDylib ctx (fuel + 1) mf = some (.ok D)) :
    ∃ d, parseDylibFile mf = some (.ok d) ∧
      mergeReexports ctx (fun mf => (createDylib ctx fuel mf).map (·.map (·.info)))
        d.installName d.reexportedLibs d = some (.ok D.info) ∧ D.syms = D.info.syms := by
  simp only [createDylib] at h
  split at h
  · cases h
  · cases h
  · rename_i d hd
    split at h
    · cases h
    · cases h
    · rename_i d' hd'
      cases h
      exact ⟨d, hd, hd', rfl⟩

theorem createDylib_child {fuel : Nat} {mf : MappedFile} {c : DylibInfo}
    (h : (createDylib ctx fuel mf).map (·.map (·.info)) = some (.ok c)) :
    ∃ C, createDylib ctx fuel mf = some (.ok C) ∧ C.info = c := by
  cases hC : createDylib ctx fuel mf with
  | none => simp [hC] at h
  | some r =>
    cases r with
    | error e => simp [hC, Except.map] at h
    | ok C =>
      simp only [hC, Option.map_some', Except.map, Option.some.injEq, Except.ok.injEq] at h
      exact ⟨C, rfl, h⟩

/-- `create` does not return when the first library the file re-exports is found and its
creation does not return. -/
theorem createDylib_none_of_first {fuel : Nat} {mf child : MappedFile} {d : DylibInfo}
    {path : String} {rest : List String} (hd : parseDylibFile mf = some (.ok d))
    (hp : d.reexportedLibs = path :: rest) (hf : findExternalLib ctx path = some child)
    (hc : createDylib ctx fuel child = none) : createDylib ctx (fuel + 1) mf = none := by
  simp [createDylib, hd, hp, mergeReexports, hf, hc]

/-- Whenever `create` returns, each set that `mergeChild` merges holds exactly the names
of that set of the libraries reachable from the file through re-exports, the file itself
included. -/
theorem createDylib_names (sel : DylibInfo → NameSet)
    (hsel : ∀ d c, sel (d.mergeChild c) = (sel d).merge (sel c)) :
    ∀ {fuel : Nat} {mf : MappedFile} {D : CreatedDylib}, createDylib ctx fuel mf = some (.ok D) →
      ∀ x, x ∈ (sel D.info).elems ↔ ∃ g, Relation.ReflTransGen (Reexports ctx) mf g ∧
        ∃ d, parseDylibFile g = some (.ok d) ∧ x ∈ (sel d).elems
  | 0, _, _, h => by cases h
  | fuel + 1, mf, D, h => by
    obtain ⟨d, hd, hm, -⟩ := createDylib_ok h
    obtain ⟨hall, hx⟩ := mergeReexports_ok sel hsel hm
    intro x
    rw [hx]
    constructor
    · rintro (hxd | ⟨path, hp, mf', c, hf, hc, hxc⟩)
      · exact ⟨mf, .refl, d, hd, hxd⟩
      · obtain ⟨C, hC, rfl⟩ := createDylib_child hc
        obtain ⟨g, hg, hown⟩ := (createDylib_names sel hsel hC x).mp hxc
        exact ⟨g, .head ⟨d, hd, path, hp, hf⟩ hg, hown⟩
    · rintro ⟨g, hg, d', hd', hxg⟩
      rcases Relation.ReflTransGen.cases_head hg with rfl | ⟨mf', ⟨d1, hd1, path, hp, hf⟩, hg'⟩
      · rw [hd] at hd'
        cases hd'
        exact .inl hxg
      · rw [hd] at hd1
        cases hd1
        obtain ⟨mf'', c, hf', hc⟩ := hall path hp
        rw [hf] at hf'
        cases hf'
        obtain ⟨C, hC, rfl⟩ := createDylib_child hc
        exact .inr ⟨path, hp, mf', C.info, hf, hc,
          (createDylib_names sel hsel hC x).mpr ⟨g, hg', d', hd', hxg⟩⟩

/-- The symbols a dylib lists: each name of its exports and weak exports once, weak
exactly when it is a weak export and not an export. -/
theorem DylibInfo.syms_spec (d : DylibInfo) :
    (d.syms.map (·.1)).Nodup ∧
    (∀ x, x ∈ d.syms.map (·.1) ↔ x ∈ d.exports.elems ∨ x ∈ d.weakExports.elems) ∧
    ∀ x w, (x, w) ∈ d.syms → (w = true ↔ x ∈ d.weakExports.elems ∧ x ∉ d.exports.elems) := by
  have hfst : d.syms.map (·.1) =
      d.exports.elems ++ d.weakExports.elems.filter fun s => !d.exports.contains s := by
    simp [DylibInfo.syms, List.map_map, Function.comp_def]
  refine ⟨?_, fun x => ?_, fun x w hxw => ?_⟩
  · rw [hfst]
    refine d.exports.nodup.append (d.weakExports.nodup.filter _) fun x hx hy => ?_
    simp only [List.mem_filter, NameSet.contains, Bool.not_eq_true', decide_eq_false_iff_not] at hy
    exact hy.2 hx
  · rw [hfst]
    simp only [List.mem_append, List.mem_filter, NameSet.contains, Bool.not_eq_true',
      decide_eq_false_iff_not]
    by_cases hx : x ∈ d.exports.elems <;> simp [hx]
  · simp only [DylibInfo.syms, List.mem_append, List.mem_map, List.mem_filter] at hxw
    rcases hxw with ⟨y, hy, h⟩ | ⟨y, ⟨hy, hc⟩, h⟩
    · cases h
      simp [hy]
    · cases h
      simp only [NameSet.contains, Bool.not_eq_true', decide_eq_false_iff_not] at hc
      simp [hy, hc]

/-- Whenever `DylibFile::create` returns, its exports are the plain exports of the
libraries reachable from the file through re-exports (the file included), its weak
exports are their weak exports, and `syms` lists every name of the two sets once, with
`is_weak_symbol` set exactly for the weak exports that are not exports. -/
theorem create_dylib_exports {fuel : Nat} {mf : MappedFile} {D : CreatedDylib}
    (h : createDylib ctx fuel mf = some (.ok D)) :
    (∀ x, x ∈ D.info.exports.elems ↔ ∃ g, Relation.ReflTransGen (Reexports ctx) mf g ∧
        ∃ d, parseDylibFile g = some (.ok d) ∧ x ∈ d.exports.elems) ∧
    (∀ x, x ∈ D.info.weakExports.elems ↔ ∃ g, Relation.ReflTransGen (Reexports ctx) mf g ∧
        ∃ d, parseDylibFile g = some (.ok d) ∧ x ∈ d.weakExports.elems) ∧
    (D.syms.map (·.1)).Nodup ∧
    (∀ x, x ∈ D.syms.map (·.1) ↔ x ∈ D.info.exports.elems ∨ x ∈ D.info.weakExports.elems) ∧
    ∀ x w, (x, w) ∈ D.syms → (w = true ↔ x ∈ D.info.weakExports.elems ∧ x ∉ D.info.exports.elems) := by
  have hsyms : D.syms = D.info.syms := by
    cases fuel with
    | zero => cases h
    | succ fuel =>
      obtain ⟨-, -, -, hs⟩ := createDylib_ok h
      exact hs
  rw [hsyms]
  exact ⟨createDylib_names (·.exports) (fun _ _ => rfl) h,
    createDylib_names (·.weakExports) (fun _ _ => rfl) h, D.info.syms_spec⟩

end Create

/-- `libA.tbd` exports `_a`, weakly exports `_w`, and re-exports `libB.tbd`, which exports
`_b` and `_w`. -/
def stubA : MappedFile :=
  ⟨"libA.tbd", .tapi ⟨"libA.tbd", ["libB.tbd"], .ofList [[0x5F, 0x61]], .ofList [[0x5F, 0x77]]⟩⟩

/-- `libB.tbd`. -/
def stubB : MappedFile :=
  ⟨"libB.tbd", .tapi ⟨"libB.tbd", [], .ofList [[0x5F, 0x62], [0x5F, 0x77]], .empty⟩⟩

/-- A file system holding `libB.tbd`, found by its relative path. -/
def twoStubContext : LibContext where
  openFile path := if path = "libB.tbd" then some stubB else none
  syslibroot := []

theorem create_dylib_exports_two_stubs :
    ∃ D, createDylib twoStubContext 2 stubA = some (.ok D) ∧
      (∀ x, x ∈ D.info.exports.elems ↔
        ∃ g, Relation.ReflTransGen (Reexports twoStubContext) stubA g ∧
          ∃ d, parseDylibFile g = some (.ok d) ∧ x ∈ d.exports.elems) ∧
      (∀ x, x ∈ D.info.weakExports.elems ↔
        ∃ g, Relation.ReflTransGen (Reexports twoStubContext) stubA g ∧
          ∃ d, parseDylibFile g = some (.ok d) ∧ x ∈ d.weakExports.elems) ∧
      (D.syms.map (·.1)).Nodup ∧
      (∀ x, x ∈ D.syms.map (·.1) ↔ x ∈ D.info.exports.elems ∨ x ∈ D.info.weakExports.elems) ∧
      ∀ x w, (x, w) ∈ D.syms →
        (w = true ↔ x ∈ D.info.weakExports.elems ∧ x ∉ D.info.exports.elems) :=
  have h : createDylib twoStubContext 2 stubA = some (.ok _) := rfl
  ⟨_, h, create_dylib_exports h⟩

example : (createDylib twoStubContext 2 stubA).map (·.map (·.syms)) =
    some (.ok [([0x5F, 0x61], false), ([0x5F, 0x62], false), ([0x5F, 0x77], false)]) := rfl

/-! ### A cycle of re-exports -/

/-- A text stub named `name` that re-exports `other` and exports nothing itself. -/
def reexportingStub (name other : String) : MappedFile :=
  ⟨name, .tapi ⟨name, [other], .empty, .empty⟩⟩

/-- `libA.tbd` and `libB.tbd`, two stubs that re-export each other. -/
def cycleContext : LibContext where
  openFile path :=
    if path = "libA.tbd" then some (reexportingStub "libA.tbd" "libB.tbd")
    else if path = "libB.tbd" then some (reexportingStub "libB.tbd" "libA.tbd")
    else none
  syslibroot := []

/-- `create` on either stub creates the other, which creates the first again, with no
visited set: whatever the bound on nested calls, neither call has returned (`createDylib`
has no other way to give `none` on text stubs). -/
theorem create_dylib_reexport_cycle_unbounded : ∀ fuel,
    createDylib cycleContext fuel (reexportingStub "libA.tbd" "libB.tbd") = none ∧
      createDylib cycleContext fuel (reexportingStub "libB.tbd" "libA.tbd") = none
  | 0 => ⟨rfl, rfl⟩
  | fuel + 1 =>
    let ⟨hA, hB⟩ := create_dylib_reexport_cycle_unbounded fuel
    ⟨createDylib_none_of_first rfl rfl rfl hB, createDylib_none_of_first rfl rfl rfl hA⟩

end SoldMacho
