import SoldMacho.ObjectData
import SoldMacho.Binding

/-!
# `ObjectFile::parse` on the bytes of an object file

`ObjectFile::parse` of a native object runs `parse_sections` and `parse_symbols`
(`ObjectData`), then the splitter the header's `flags` choose, the sort of `subsections`
and `fix_subsec_members` (`parseObject`), then `parse_relocations` on every section and,
when `parse_sections` found a `__LD,__compact_unwind` header, `parse_compact_unwind` on
the entries at the header's `offset` and the relocations at its `reloff`
(`parseCompactUnwind`).

* `readCompactUnwindEntry` and `readMachRel` read the two records, and the records their
  encoders write read back (`readCompactUnwindEntry_encode`, `readMachRel_encode`);
* `readUnwind` is what `parse_compact_unwind` reads of `unwind_sec`;
* `parseObjectRecords` is the parse on an object's records and `parseObjectData` on its
  bytes; on a file a writer laid out the two agree (`parseObjectData_laidOut`);
* `parseObjectRecords_spans`: whenever the parse returns with an `unwind_sec`, the records
  of each subsection are exactly its unwind span, whichever splitter made the subsections.

Left out: `InputSection::parse_relocations` is declared outside the sources, and none of
the modelled passes reads what it records; the model takes it to return.  The `Symbol`
each entry stands for comes from interning its name, which is outside the model too, and
is a parameter (`syms`).  `CompactUnwindEntry` and `MachRel` are declared outside the
sources; their layouts are the one the `offsetof` cases of `parse_compact_unwind` name and
`relocation_info` of `<mach-o/reloc.h>`.  The model reads the `nreloc` relocations before
the loop over them, so on a file whose relocations run past its end it reports the read
past the end (`none`) where the loop may stop earlier with an error.
-/

namespace SoldMacho

/-! ### Compact unwind entries and relocations -/

/-- The 32-byte `CompactUnwindEntry` at the start of `bytes`: `code_start` at 0,
`code_len` at 8, `encoding` at 12, `personality` at 16 and `lsda` at 24. -/
def readCompactUnwindEntry (bytes : List UInt8) : Option CompactUnwindEntry :=
  (readU64 bytes).bind fun codeStart =>
  (readU32 (bytes.drop 8)).bind fun codeLen =>
  (readU32 (bytes.drop 12)).bind fun encoding =>
  (readU64 (bytes.drop 16)).bind fun personality =>
  (readU64 (bytes.drop 24)).map fun lsda =>
    { codeStart := codeStart, codeLen := codeLen, encoding := encoding,
      personality := personality, lsda := lsda }

/-- The bytes of an entry. -/
def CompactUnwindEntry.encode (e : CompactUnwindEntry) : List UInt8 :=
  encodeU64 e.codeStart ++ encodeU32 e.codeLen ++ encodeU32 e.encoding ++
    encodeU64 e.personality ++ encodeU64 e.lsda

@[simp] theorem CompactUnwindEntry.encode_length (e : CompactUnwindEntry) :
    e.encode.length = 32 := rfl

/-- An entry `encode` writes faithfully: fields within their widths. -/
def CompactUnwindEntry.Fits (e : CompactUnwindEntry) : Prop :=
  e.codeStart < 2 ^ 64 ∧ e.codeLen < 2 ^ 32 ∧ e.encoding < 2 ^ 32 ∧ e.personality < 2 ^ 64 ∧
    e.lsda < 2 ^ 64

instance (e : CompactUnwindEntry) : Decidable e.Fits :=
  inferInstanceAs (Decidable (_ ∧ _ ∧ _ ∧ _ ∧ _))

theorem readCompactUnwindEntry_encode {e : CompactUnwindEntry} (hf : e.Fits) (rest : List UInt8) :
    readCompactUnwindEntry (e.encode ++ rest) = some e := by
  obtain ⟨hc, hl, he, hp, hs⟩ := hf
  have h0 : (e.encode ++ rest).drop 0 = encodeU64 e.codeStart ++ (encodeU32 e.codeLen ++
      (encodeU32 e.encoding ++ (encodeU64 e.personality ++ (encodeU64 e.lsda ++ rest)))) := by
    simp only [CompactUnwindEntry.encode, List.append_assoc, List.drop_zero]
  have h8 := drop_add_of_drop_eq h0
  have h12 := drop_add_of_drop_eq h8
  have h16 := drop_add_of_drop_eq h12
  have h24 := drop_add_of_drop_eq h16
  simp only [encodeU64_length, encodeU32_length, Nat.zero_add, Nat.reduceAdd] at h8 h12 h16 h24
  rw [List.drop_zero] at h0
  rw [readCompactUnwindEntry, h8, h12, h16, h24, h0]
  simp only [readU64_encodeU64, readU32_encodeU32, Option.some_bind, Option.map_some',
    Nat.mod_eq_of_lt, hc, hl, he, hp, hs]

/-- The 8-byte `MachRel` at the start of `bytes`: `offset` (`r_address`), then a word
holding `idx` (`r_symbolnum`) in bits 0 to 23, `is_pcrel` in bit 24, `p2size`
(`r_length`) in bits 25 and 26, `is_extern` in bit 27 and `type` in bits 28 to 31. -/
def readMachRel (bytes : List UInt8) : Option MachRel :=
  (readU32 bytes).bind fun offset => (readU32 (bytes.drop 4)).map fun w =>
    { offset := offset, idx := w % 2 ^ 24, isPcrel := w / 2 ^ 24 % 2 == 1,
      p2size := w / 2 ^ 25 % 4, isExtern := w / 2 ^ 27 % 2 == 1, type := w / 2 ^ 28 }

/-- The word holding a relocation's bit fields. -/
def MachRel.word (r : MachRel) : Nat :=
  r.idx + 2 ^ 24 * r.isPcrel.toNat + 2 ^ 25 * r.p2size + 2 ^ 27 * r.isExtern.toNat +
    2 ^ 28 * r.type

/-- The bytes of a relocation. -/
def MachRel.encode (r : MachRel) : List UInt8 := encodeU32 r.offset ++ encodeU32 r.word

@[simp] theorem MachRel.encode_length (r : MachRel) : r.encode.length = 8 := rfl

/-- A relocation `encode` writes faithfully: fields within their widths. -/
def MachRel.Fits (r : MachRel) : Prop :=
  r.offset < 2 ^ 32 ∧ r.idx < 2 ^ 24 ∧ r.p2size < 4 ∧ r.type < 16

instance (r : MachRel) : Decidable r.Fits := inferInstanceAs (Decidable (_ ∧ _ ∧ _ ∧ _))

/-- The fields of a relocation's word read back apart. -/
theorem MachRel.word_fields {r : MachRel} (hf : r.Fits) :
    r.word < 2 ^ 32 ∧ r.word % 2 ^ 24 = r.idx ∧ r.word / 2 ^ 24 % 2 = r.isPcrel.toNat ∧
      r.word / 2 ^ 25 % 4 = r.p2size ∧ r.word / 2 ^ 27 % 2 = r.isExtern.toNat ∧
      r.word / 2 ^ 28 = r.type := by
  obtain ⟨-, hi, hl, ht⟩ := hf
  have hp := Bool.toNat_le r.isPcrel
  have hx := Bool.toNat_le r.isExtern
  unfold MachRel.word
  omega

theorem toNat_beq_one (b : Bool) : (b.toNat == 1) = b := by cases b <;> rfl

theorem readMachRel_encode {r : MachRel} (hf : r.Fits) (rest : List UInt8) :
    readMachRel (r.encode ++ rest) = some r := by
  obtain ⟨hw, hi, hp, hl, hx, ht⟩ := MachRel.word_fields hf
  rw [readMachRel, MachRel.encode, List.append_assoc, readU32_encodeU32, Option.some_bind,
    List.drop_left' (encodeU32_length _), readU32_encodeU32, Option.map_some',
    Nat.mod_eq_of_lt hf.1, Nat.mod_eq_of_lt hw, hi, hp, hl, hx, ht, toNat_beq_one, toNat_beq_one]

/-- `n` records of `size` bytes each from offset `p`, each read by `read`. -/
def readRecords {α : Type} (read : List UInt8 → Option α) (size : Nat) (data : List UInt8) :
    Nat → Nat → Option (List α)
  | 0, _ => some []
  | n + 1, p => (read (data.drop p)).bind fun x =>
    (readRecords read size data n (p + size)).map (x :: ·)

theorem readRecords_encoded {α : Type} {read : List UInt8 → Option α} {enc : α → List UInt8}
    {size : Nat} {Fits : α → Prop} (hlen : ∀ x, (enc x).length = size)
    (hread : ∀ x, Fits x → ∀ rest, read (enc x ++ rest) = some x) {data tail : List UInt8} :
    ∀ {xs : List α} {p : Nat}, data.drop p = (xs.map enc).flatten ++ tail → (∀ x ∈ xs, Fits x) →
      readRecords read size data xs.length p = some xs
  | [], _, _, _ => rfl
  | x :: xs, p, hb, hf => by
    rw [List.map_cons, List.flatten_cons, List.append_assoc] at hb
    have hnext := drop_add_of_drop_eq hb
    rw [hlen] at hnext
    rw [List.length_cons, readRecords, hb, hread x (hf x (List.mem_cons_self _ _)),
      Option.some_bind, readRecords_encoded hlen hread hnext fun x' hx => hf x' (List.mem_cons_of_mem _ hx)]
    rfl

/-! ### `parse_compact_unwind` on the bytes -/

/-- What `parse_compact_unwind` reads of `unwind_sec` `h`: its size and, once the size
passed the check that stops the pass before any read, the `size / 32` entries at
`offset` and the `nreloc` relocations at `reloff`.  `none` is a read past the end of the
file. -/
def readUnwind (data : List UInt8) (h : MachSectionHeader) :
    Option (Nat × List CompactUnwindEntry × List MachRel) :=
  if h.size % 32 ≠ 0 then some (h.size, [], [])
  else (readRecords readCompactUnwindEntry 32 data (h.size / 32) h.offset).bind fun src =>
    (readRecords readMachRel 8 data h.nreloc h.reloff).map fun rels => (h.size, src, rels)

/-- `unwind_sec` `h` of file `data` holds the entries `src` at `offset` and the
relocations `rels` at `reloff`, each laid out faithfully, when its size is a whole
number of entries (nothing is read otherwise). -/
def UnwindAt (data : List UInt8) (h : MachSectionHeader) (src : List CompactUnwindEntry)
    (rels : List MachRel) : Prop :=
  h.size % 32 = 0 → src.length = h.size / 32 ∧ rels.length = h.nreloc ∧
    (∀ e ∈ src, e.Fits) ∧ (∀ r ∈ rels, r.Fits) ∧
    (∃ t, data.drop h.offset = (src.map CompactUnwindEntry.encode).flatten ++ t) ∧
    ∃ t, data.drop h.reloff = (rels.map MachRel.encode).flatten ++ t

theorem parseCompactUnwind_size {u : UnwindInput} (h : u.size % 32 ≠ 0) :
    parseCompactUnwind u = .error .invalidSectionSize := by
  rw [parseCompactUnwind, if_pos h]

/-! ### The whole parse -/

/-- The `Fatal` errors of `ObjectFile::parse` on a native object: those of the passes up
to `fix_subsec_members`, and those of `parse_compact_unwind`. -/
inductive ObjectError where
  | parse (e : ParseError)
  | unwind (e : UnwindError)
  deriving DecidableEq, Repr

/-- What `ObjectFile::parse` leaves of a native object: the passes up to
`fix_subsec_members` and, with an `unwind_sec`, `unwind_records` and the subsections, in
the order of `subsections`, with their unwind spans. -/
structure ObjectParse where
  parsed : ParsedObject
  unwind : Option (List UnwindRecord × List Subsection)
  deriving DecidableEq, Repr

/-- The input of `parse_compact_unwind` once the passes before it returned `p`: the sorted
`subsections`, the entries with the symbol each stands for, and `unwind_sec`'s size,
entries and relocations. -/
def ParsedObject.unwindInput (p : ParsedObject) (machSyms : List MachSym) (syms : List Nat)
    (u : Nat × List CompactUnwindEntry × List MachRel) : UnwindInput :=
  { subsections := p.subsections.map (·.2), machSyms := machSyms, syms := syms, size := u.1,
    src := u.2.1, rels := u.2.2 }

/-- `ObjectFile::parse` of a native object on its records, for file `self` whose entries
stand for the symbols `syms`: `parseObject`, then `parse_compact_unwind` on `unwind`, the
size, entries and relocations of `unwind_sec` if there is one. -/
def parseObjectRecords (self : Nat) (obj : MachObject) (viaSymbols : Bool) (syms : List Nat)
    (unwind : Option (Nat × List CompactUnwindEntry × List MachRel)) :
    Except ObjectError ObjectParse :=
  match parseObject self obj viaSymbols, unwind with
  | .error e, _ => .error (.parse e)
  | .ok p, none => .ok ⟨p, none⟩
  | .ok p, some u =>
    match parseCompactUnwind (p.unwindInput obj.machSyms syms u) with
    | .error e => .error (.unwind e)
    | .ok r => .ok ⟨p, some r⟩

/-- `ObjectFile::parse` of a native object file `data`, file `self` of the link whose
entries stand for the symbols `syms`: `parse_sections`, `parse_symbols`, the header's
`flags` choosing the splitter, and `unwind_sec` read once the passes before
`parse_compact_unwind` have returned.  `none` is a read past the end of the file. -/
def parseObjectData (self : Nat) (syms : List Nat) (data : List UInt8) :
    Option (Except ObjectError ObjectParse) :=
  (parseSections data).bind fun st => (readMachSyms data).bind fun machSyms =>
    (readU32 (data.drop 24)).bind fun flags =>
      let obj : MachObject := { sections := st.sections, machSyms := machSyms }
      let viaSymbols := flags &&& MH_SUBSECTIONS_VIA_SYMBOLS != 0
      match parseObject self obj viaSymbols, st.unwindSec with
      | .ok _, some h => (readUnwind data h).map fun u =>
        parseObjectRecords self obj viaSymbols syms (some u)
      | _, _ => some (parseObjectRecords self obj viaSymbols syms none)

/-- On a laid-out `unwind_sec`, `parse_compact_unwind` runs on what the layout holds; a
size that is not a whole number of entries fails before anything is read. -/
theorem readUnwind_laidOut {data : List UInt8} {h : MachSectionHeader}
    {src : List CompactUnwindEntry} {rels : List MachRel} (hu : UnwindAt data h src rels)
    (p : ParsedObject) (machSyms : List MachSym) (syms : List Nat) :
    ∃ u, readUnwind data h = some u ∧ parseCompactUnwind (p.unwindInput machSyms syms u) =
      parseCompactUnwind (p.unwindInput machSyms syms (h.size, src, rels)) := by
  by_cases h32 : h.size % 32 = 0
  · obtain ⟨hn, hr, hfs, hfr, ⟨t, ht⟩, ⟨t', ht'⟩⟩ := hu h32
    refine ⟨_, ?_, rfl⟩
    rw [readUnwind, if_neg (not_not.mpr h32), ← hn,
      readRecords_encoded CompactUnwindEntry.encode_length
        (fun _ he => readCompactUnwindEntry_encode he) ht hfs,
      Option.some_bind, ← hr,
      readRecords_encoded MachRel.encode_length (fun _ hr => readMachRel_encode hr) ht' hfr,
      Option.map_some']
  · exact ⟨_, if_pos h32, by rw [parseCompactUnwind_size h32, parseCompactUnwind_size h32]⟩

/-- On an object file whose header counts `cmds` and holds `flags`, whose commands a
writer laid out after the header, whose first `LC_SYMTAB` names `syms` and whose last
`__LD,__compact_unwind` header, if any, locates the entries `src` and the relocations
`rels`, `ObjectFile::parse` on the bytes is the parse of the records: the object whose
`sections` has one entry per section header of every segment, in order, null exactly for
`__LD,__compact_unwind` and debug sections, whose `mach_syms` are `syms`, and whose
`unwind_sec` holds `src` and `rels`. -/
theorem parseObjectData_laidOut {data rest : List UInt8} {cmds : List ObjectCommand}
    {syms : List MachSym} {flags : Nat} (h : CommandsAt data 32 (cmds.map ObjectCommand.encode) rest)
    (hn : readU32 (data.drop 16) = some cmds.length) (hf : ∀ c ∈ cmds, c.Fits)
    (hsyms : SymtabAt data cmds syms) (hflags : readU32 (data.drop 24) = some flags)
    {src : List CompactUnwindEntry} {rels : List MachRel}
    (hunw : ∀ u ∈ (cmds.flatMap ObjectCommand.sections).reverse.find? isUnwindHeader,
      UnwindAt data u src rels) (self : Nat) (ids : List Nat) :
    parseObjectData self ids data = some (parseObjectRecords self
      { sections := (cmds.flatMap ObjectCommand.sections).map (sectionEntry data), machSyms := syms }
      (flags &&& MH_SUBSECTIONS_VIA_SYMBOLS != 0) ids
      (((cmds.flatMap ObjectCommand.sections).reverse.find? isUnwindHeader).map
        fun u => (u.size, src, rels))) := by
  rw [parseObjectData, parseSections_laidOut h hn hf, Option.some_bind,
    readMachSyms_laidOut h hn hf hsyms, Option.some_bind, hflags, Option.some_bind]
  generalize (cmds.flatMap ObjectCommand.sections).reverse.find? isUnwindHeader = unw at hunw
  dsimp only
  cases hp : parseObject self
    { sections := (cmds.flatMap ObjectCommand.sections).map (sectionEntry data), machSyms := syms }
    (flags &&& MH_SUBSECTIONS_VIA_SYMBOLS != 0) with
  | error e => cases unw <;> simp only [parseObjectRecords, hp, Option.map_none', Option.map_some']
  | ok p =>
    cases unw with
    | none => simp only [parseObjectRecords, hp, Option.map_none']
    | some u =>
      obtain ⟨u', hu', heq⟩ := readUnwind_laidOut (hunw u rfl) p syms ids
      simp only [parseObjectRecords, hp, hu', heq, Option.map_some']

/-- The subsections `ObjectFile::parse` hands to `parse_compact_unwind` come with empty
unwind spans, whichever splitter made them. -/
theorem parseObject_fresh {self : Nat} {obj : MachObject} {v : Bool} {p : ParsedObject}
    (h : parseObject self obj v = .ok p) : ∀ x ∈ p.subsections.map (·.2), x.nunwind = 0 := by
  obtain ⟨st, -, -, hst, rfl⟩ := parseObject_ok h
  have hpool : ∀ x ∈ st.pool, x.nunwind = 0 := by
    rcases makeSubsections_eq hst with ⟨-, hs⟩ | ⟨-, rfl⟩
    · exact splitSubsectionsViaSymbols_fresh hs
    · exact initSubsections_fresh obj
  intro x hx
  obtain ⟨y, hy, rfl⟩ := List.mem_map.mp hx
  exact hpool _ (List.snd_mem_of_mem_enum ((sortSubsections_perm _).subset hy))

/-- Whenever `ObjectFile::parse` returns on an object with an `unwind_sec`, every record
is attached to a subsection, the subsections keep their addresses, and the records of
each subsection are exactly its span `[unwind_offset, unwind_offset + nunwind)`. -/
theorem parseObjectRecords_spans {self : Nat} {obj : MachObject} {v : Bool} {ids : List Nat}
    {unwind : Option (Nat × List CompactUnwindEntry × List MachRel)} {p : ParsedObject}
    {recs : List UnwindRecord} {subs : List Subsection}
    (h : parseObjectRecords self obj v ids unwind = .ok ⟨p, some (recs, subs)⟩) :
    (∀ r ∈ recs, r.subsec.isSome) ∧
      subs.map (·.inputAddr) = p.subsections.map (·.2.inputAddr) ∧
      ∀ s k, subsecAt recs k = some s ↔ InSpan subs s k := by
  unfold parseObjectRecords at h
  split at h
  · cases h
  · cases h
  · rename_i p' u hp
    split at h
    · cases h
    · rename_i r hr
      cases h
      obtain ⟨hsorted, hL, rfl⟩ := parseCompactUnwind_ok hr
      refine ⟨fun r hr => (hL r hr).2, by rw [associate_inputAddr]; simp [ParsedObject.unwindInput],
        associate_spans_of_sorted hsorted hL (parseObject_fresh hp)⟩

/-! ### A function and its compact unwind entry -/

/-- `__TEXT,__text`: eight bytes at address 0. -/
def sampleTextHeader : MachSectionHeader := ⟨"__text", "__TEXT", 0, 8, 0, 2, 0, 0, 0x80000400⟩

/-- `__LD,__compact_unwind`, whose sixteen-byte name has no NUL: one entry at offset 400
and one relocation at 432. -/
def sampleUnwindHeader : MachSectionHeader :=
  ⟨"__compact_unwind", "__LD", 8, 32, 400, 3, 432, 1, 0x02000000⟩

/-- The two sections and the debug section `__DWARF,__debug_info`, in one segment. -/
def sampleHeaders : List MachSectionHeader :=
  [sampleTextHeader, sampleUnwindHeader, ⟨"__debug_info", "__DWARF", 40, 16, 0, 0, 0, 0, 0x02000000⟩]

/-- An extern symbol at the start of `__text` and a local one four bytes in. -/
def sampleSyms : List MachSym :=
  [{ isExtern := true, type := .sect, sect := 1, value := 0 }, { type := .sect, sect := 1, value := 4 }]

/-- The segment, then `LC_SYMTAB` naming the two entries at offset 368, right after the
commands. -/
def sampleCommands : List ObjectCommand := [.segment sampleHeaders, .symtab 368 2]

/-- A header of zeros but for `ncmds` and `MH_SUBSECTIONS_VIA_SYMBOLS`. -/
def sampleHeader : List UInt8 :=
  List.replicate 16 0 ++ encodeU32 2 ++ encodeU32 0 ++ encodeU32 MH_SUBSECTIONS_VIA_SYMBOLS ++ encodeU32 0

/-- The entry of the function at `[0, 8)`, and the relocation of its `code_start`. -/
def sampleEntry : CompactUnwindEntry := { codeLen := 8 }

def sampleRel : MachRel := { offset := 0 }

/-- The object: the header, the commands, the symbol table, the entry and the
relocation. -/
def sampleObject : List UInt8 :=
  sampleHeader ++ (((sampleCommands.map ObjectCommand.encode).map encodeCommand).flatten ++
    ((sampleSyms.map MachSym.encode).flatten ++ (sampleEntry.encode ++ sampleRel.encode)))

theorem sampleObject_commandsAt :
    CommandsAt sampleObject 32 (sampleCommands.map ObjectCommand.encode)
      ((sampleSyms.map MachSym.encode).flatten ++ (sampleEntry.encode ++ sampleRel.encode)) :=
  ⟨List.drop_left' rfl, by
    simp only [sampleCommands, List.map_cons, List.map_nil, List.forall_mem_cons, List.forall_mem_nil,
      ObjectCommand.segment_cmdsize, and_true]
    decide⟩

/-- The header and the commands take 368 bytes, the symbol table 32 more. -/
theorem sampleObject_prefix_length :
    (sampleHeader ++ ((sampleCommands.map ObjectCommand.encode).map encodeCommand).flatten).length = 368 := by
  simp only [List.length_append, sampleCommands, List.map_cons, List.map_nil, List.flatten_cons,
    List.flatten_nil, encodeCommand_length, ObjectCommand.segment_cmdsize]
  rfl

theorem sampleObject_symtabAt : SymtabAt sampleObject sampleCommands sampleSyms :=
  ⟨rfl, by decide, _, by rw [sampleObject, ← List.append_assoc, List.drop_left' sampleObject_prefix_length]⟩

theorem sampleObject_unwindAt : UnwindAt sampleObject sampleUnwindHeader [sampleEntry] [sampleRel] := by
  have h400 : sampleObject.drop 400 = sampleEntry.encode ++ sampleRel.encode := by
    rw [sampleObject, ← List.append_assoc, ← List.append_assoc,
      List.drop_left' (by rw [List.length_append, sampleObject_prefix_length]; rfl)]
  have h432 := drop_add_of_drop_eq h400
  rw [CompactUnwindEntry.encode_length] at h432
  exact fun _ => ⟨rfl, rfl, by decide, by decide, ⟨_, by simpa using h400⟩, ⟨[], by simpa using h432⟩⟩

/-- The object `parse_sections` and `parse_symbols` read from `sampleObject`. -/
def sampleRecords : MachObject :=
  { sections := [some (newInputSection sampleObject sampleTextHeader), none, none], machSyms := sampleSyms }

theorem sampleObject_parse : parseObjectData 0 [5, 6] sampleObject =
    some (parseObjectRecords 0 sampleRecords true [5, 6] (some (32, [sampleEntry], [sampleRel]))) := by
  have hfind : (sampleCommands.flatMap ObjectCommand.sections).reverse.find? isUnwindHeader =
      some sampleUnwindHeader := by decide
  have h := parseObjectData_laidOut sampleObject_commandsAt rfl (by decide) sampleObject_symtabAt
    (rfl : readU32 (sampleObject.drop 24) = some MH_SUBSECTIONS_VIA_SYMBOLS)
    (fun u hu => by rw [hfind] at hu; cases hu; exact sampleObject_unwindAt) 0 [5, 6]
  rw [hfind, show (sampleCommands.flatMap ObjectCommand.sections).map (sectionEntry sampleObject) =
      [some (newInputSection sampleObject sampleTextHeader), none, none] by decide] at h
  exact h

theorem sampleObject_unwind_spans : ∃ p recs subs,
    parseObjectRecords 0 sampleRecords true [5, 6] (some (32, [sampleEntry], [sampleRel])) =
      .ok ⟨p, some (recs, subs)⟩ ∧
    (∀ r ∈ recs, r.subsec.isSome) ∧ subs.map (·.inputAddr) = p.subsections.map (·.2.inputAddr) ∧
      ∀ s k, subsecAt recs k = some s ↔ InSpan subs s k := by
  have h : parseObjectRecords 0 sampleRecords true [5, 6] (some (32, [sampleEntry], [sampleRel])) =
      .ok ⟨_, some (_, _)⟩ := rfl
  exact ⟨_, _, _, h, parseObjectRecords_spans h⟩

/-- The function's subsection `[0, 4)` holds the one record; `[4, 8)` holds none. -/
example : (parseObjectRecords 0 sampleRecords true [5, 6] (some (32, [sampleEntry], [sampleRel]))).map
      (fun o => o.unwind.map fun u => u.2.map fun x => (x.inputAddr, x.unwindOffset, x.nunwind)) =
    .ok (some [(0, 0, 1), (4, 0, 0)]) := rfl

end SoldMacho
