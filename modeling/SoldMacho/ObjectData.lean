import SoldMacho.LoadCommand
import SoldMacho.Parse

/-!
# Reading an object file

`ObjectFile::parse` of a native object starts from the bytes.  `parse_sections` walks
the `ncmds` load commands by `cmdsize` and pushes one entry of `sections` for each
section header of every `LC_SEGMENT_64`: null for `__LD,__compact_unwind`, which becomes
`unwind_sec`, and for a debug section, an `InputSection` otherwise.  `parse_symbols`
reads the `nsyms` entries of the table the first `LC_SYMTAB` names.  The passes after
these two, from the splitter to `parse_compact_unwind`, are composed with them in
`ObjectParse`.  The bitcode branch, which hands the file to the LTO plugin, is not read
here.

The layouts of `MachSection`, `SegmentCommand`, `SymtabCommand` and `MachSym` are
declared outside the sources and are written from `<mach-o/loader.h>` and
`<mach-o/nlist.h>`.  The `InputSection` constructor is outside them too; it is modelled
by the one part of it the modelled passes read, the bytes of `__TEXT,__cstring`.  Symbol
names (`n_strx`) are not read, since interning is outside the model.

On a file a writer laid out, `parse_sections` pushes one entry per header, in order,
and takes the last `__LD,__compact_unwind` header for `unwind_sec`
(`parseSections_laidOut`), so that entry `n_sect - 1` belongs to the `n_sect`-th header
of the file; `parse_symbols` reads the entries the symbol table command names
(`readMachSyms_laidOut`).
-/

namespace SoldMacho

/-- `LC_SYMTAB` of `<mach-o/loader.h>`. -/
def LC_SYMTAB : Nat := 0x2

/-- `LC_SEGMENT_64` of `<mach-o/loader.h>`. -/
def LC_SEGMENT_64 : Nat := 0x19

/-- `MH_SUBSECTIONS_VIA_SYMBOLS` of `<mach-o/loader.h>`, a bit of the header's `flags`. -/
def MH_SUBSECTIONS_VIA_SYMBOLS : Nat := 0x2000

/-- `S_ATTR_DEBUG` of `<mach-o/loader.h>`, a bit of a section's `flags`. -/
def S_ATTR_DEBUG : Nat := 0x02000000

/-! ### Fields -/

/-- A little-endian `ul64`. -/
def readU64 (bytes : List UInt8) : Option Nat :=
  (readU32 bytes).bind fun lo => (readU32 (bytes.drop 4)).map fun hi => lo + 2 ^ 32 * hi

/-- The eight little-endian bytes of the low 64 bits of `n`. -/
def encodeU64 (n : Nat) : List UInt8 := encodeU32 n ++ encodeU32 (n / 2 ^ 32)

@[simp] theorem encodeU64_length (n : Nat) : (encodeU64 n).length = 8 := rfl

theorem readU64_encodeU64 (n : Nat) (rest : List UInt8) :
    readU64 (encodeU64 n ++ rest) = some (n % 2 ^ 64) := by
  rw [readU64, encodeU64, List.append_assoc, readU32_encodeU32, Option.some_bind,
    List.drop_left' (encodeU32_length n), readU32_encodeU32, Option.map_some',
    show (2 : Nat) ^ 64 = 2 ^ 32 * 2 ^ 32 from rfl, Nat.mod_mul]

/-- A name field of a section header: sixteen bytes, up to the first NUL if any
(`get_segname`, `get_sectname`, which take `strnlen(name, 16)` bytes). -/
def readName (bytes : List UInt8) : String := bytesToString (cString (bytes.take 16))

/-- A name written into a sixteen-byte field, padded with NULs. -/
def encodeName (s : String) : List UInt8 := (stringBytes s ++ List.replicate 16 0).take 16

@[simp] theorem encodeName_length (s : String) : (encodeName s).length = 16 := by
  simp [encodeName]

theorem readName_encodeName {s : String} (hs : NameFits s) (hlen : s.length ≤ 16) (rest : List UInt8) :
    readName (encodeName s ++ rest) = s := by
  have hz := zero_not_mem_stringBytes hs
  have hl : (stringBytes s).length ≤ 16 := by simpa [stringBytes] using hlen
  rw [readName, List.take_left' (encodeName_length s), encodeName, cString, ← List.take_takeWhile,
    List.takeWhile_append_of_pos (fun a ha => by simpa using ne_of_mem_of_not_mem ha hz),
    List.takeWhile_replicate, if_neg (by decide), List.append_nil, List.take_of_length_le hl,
    bytesToString_stringBytes hs]

/-! ### Section headers -/

/-- A section header (`MachSection`) as the file holds it: the fields `parse_sections`
and the `InputSection` constructor read. -/
structure MachSectionHeader where
  sectname : String
  segname : String
  addr : Nat
  size : Nat
  offset : Nat
  p2align : Nat
  reloff : Nat
  nreloc : Nat
  flags : Nat
  deriving DecidableEq, Repr

/-- The header fields the splitter reads. -/
def MachSectionHeader.toMachSection (h : MachSectionHeader) : MachSection :=
  { segname := h.segname, sectname := h.sectname, addr := h.addr, size := h.size, p2align := h.p2align }

/-- The 80-byte header at the start of `bytes`: `sectname`, `segname`, `addr` at 32,
`size` at 40, `offset` at 48, `align` at 52, `reloff` at 56, `nreloc` at 60 and `flags`
at 64. -/
def readMachSection (bytes : List UInt8) : Option MachSectionHeader :=
  (readU64 (bytes.drop 32)).bind fun addr =>
  (readU64 (bytes.drop 40)).bind fun size =>
  (readU32 (bytes.drop 48)).bind fun offset =>
  (readU32 (bytes.drop 52)).bind fun p2align =>
  (readU32 (bytes.drop 56)).bind fun reloff =>
  (readU32 (bytes.drop 60)).bind fun nreloc =>
  (readU32 (bytes.drop 64)).map fun flags =>
    { sectname := readName bytes, segname := readName (bytes.drop 16), addr := addr, size := size,
      offset := offset, p2align := p2align, reloff := reloff, nreloc := nreloc, flags := flags }

/-- The bytes of a header; the reserved words are zero. -/
def MachSectionHeader.encode (h : MachSectionHeader) : List UInt8 :=
  encodeName h.sectname ++ encodeName h.segname ++
    (encodeU64 h.addr ++ encodeU64 h.size ++ encodeU32 h.offset ++ encodeU32 h.p2align ++
      encodeU32 h.reloff ++ encodeU32 h.nreloc ++ encodeU32 h.flags ++ List.replicate 12 0)

@[simp] theorem MachSectionHeader.encode_length (h : MachSectionHeader) : h.encode.length = 80 := by
  simp [MachSectionHeader.encode]

/-- A header `encode` writes faithfully: names of at most sixteen nonzero bytes, and
numbers that fit their fields. -/
def MachSectionHeader.Fits (h : MachSectionHeader) : Prop :=
  NameFits h.sectname ∧ h.sectname.length ≤ 16 ∧ NameFits h.segname ∧ h.segname.length ≤ 16 ∧
    h.addr < 2 ^ 64 ∧ h.size < 2 ^ 64 ∧ h.offset < 2 ^ 32 ∧ h.p2align < 2 ^ 32 ∧
    h.reloff < 2 ^ 32 ∧ h.nreloc < 2 ^ 32 ∧ h.flags < 2 ^ 32

instance (h : MachSectionHeader) : Decidable h.Fits :=
  inferInstanceAs (Decidable (_ ∧ _ ∧ _ ∧ _ ∧ _ ∧ _ ∧ _ ∧ _ ∧ _ ∧ _ ∧ _))

theorem readMachSection_encode {h : MachSectionHeader} (hf : h.Fits) (rest : List UInt8) :
    readMachSection (h.encode ++ rest) = some h := by
  obtain ⟨hs1, hs2, hg1, hg2, ha, hsz, ho, hp, hro, hrn, hfl⟩ := hf
  have h0 : (h.encode ++ rest).drop 0 = encodeName h.sectname ++ (encodeName h.segname ++
      (encodeU64 h.addr ++ (encodeU64 h.size ++ (encodeU32 h.offset ++ (encodeU32 h.p2align ++
        (encodeU32 h.reloff ++ (encodeU32 h.nreloc ++ (encodeU32 h.flags ++
          (List.replicate 12 0 ++ rest))))))))) := by
    simp only [MachSectionHeader.encode, List.append_assoc, List.drop_zero]
  have h16 := drop_add_of_drop_eq h0
  have h32 := drop_add_of_drop_eq h16
  have h40 := drop_add_of_drop_eq h32
  have h48 := drop_add_of_drop_eq h40
  have h52 := drop_add_of_drop_eq h48
  have h56 := drop_add_of_drop_eq h52
  have h60 := drop_add_of_drop_eq h56
  have h64 := drop_add_of_drop_eq h60
  simp only [encodeName_length, encodeU64_length, encodeU32_length,
    Nat.zero_add, Nat.reduceAdd] at h16 h32 h40 h48 h52 h56 h60 h64
  rw [List.drop_zero] at h0
  have hsect : readName (h.encode ++ rest) = h.sectname := by rw [h0]; exact readName_encodeName hs1 hs2 _
  have hseg : readName ((h.encode ++ rest).drop 16) = h.segname := by
    rw [h16]; exact readName_encodeName hg1 hg2 _
  simp only [readMachSection, h32, h40, h48, h52, h56, h60, h64, readU64_encodeU64, readU32_encodeU32,
    Option.some_bind, Option.map_some', Nat.mod_eq_of_lt, ha, hsz, ho, hp, hro, hrn, hfl, hsect, hseg]

/-! ### `parse_sections` -/

/-- The `InputSection` made for header `h` of file `data`: its header and, for
`__TEXT,__cstring`, the `size` bytes at `offset`, the one section whose bytes the modelled
passes read. -/
def newInputSection (data : List UInt8) (h : MachSectionHeader) : InputSection :=
  { hdr := h.toMachSection,
    contents := if h.toMachSection.matches "__TEXT" "__cstring" then (data.drop h.offset).take h.size
      else [] }

/-- What `parse_sections` builds: `sections`, one entry per section header, null for a
section without an `InputSection`, and `unwind_sec`. -/
structure SectionsState where
  sections : List (Option InputSection) := []
  unwindSec : Option MachSectionHeader := none
  deriving DecidableEq, Repr

/-- Whether `parse_sections` takes header `h` for `unwind_sec`. -/
def isUnwindHeader (h : MachSectionHeader) : Bool := h.toMachSection.matches "__LD" "__compact_unwind"

/-- The loop body of `parse_sections` on header `msec`: a null entry, kept for
`__LD,__compact_unwind` (which becomes `unwind_sec`) and for a debug section, or reset to
a new `InputSection`. -/
def SectionsState.push (data : List UInt8) (st : SectionsState) (msec : MachSectionHeader) :
    SectionsState :=
  if isUnwindHeader msec then { sections := st.sections ++ [none], unwindSec := some msec }
  else if msec.flags &&& S_ATTR_DEBUG ≠ 0 then { st with sections := st.sections ++ [none] }
  else { st with sections := st.sections ++ [some (newInputSection data msec)] }

/-- The inner loop of `parse_sections`: `n` headers from offset `p`. -/
def readSegmentSections (data : List UInt8) : Nat → Nat → SectionsState → Option SectionsState
  | 0, _, st => some st
  | n + 1, p, st => (readMachSection (data.drop p)).bind fun msec =>
    readSegmentSections data n (p + 80) (st.push data msec)

/-- `ObjectFile::parse_sections`: the headers of every `LC_SEGMENT_64` among the `ncmds`
commands, `nsects` of them after the 72-byte command head.  `none` is a read past the end
of the file. -/
def parseSections (data : List UInt8) : Option SectionsState :=
  (readU32 (data.drop 16)).bind fun ncmds => go ncmds 32 {}
where
  /-- The loop from the command at offset `p`, with `n` commands left. -/
  go : Nat → Nat → SectionsState → Option SectionsState
    | 0, _, st => some st
    | n + 1, p, st => (readU32 (data.drop p)).bind fun cmd => (readU32 (data.drop (p + 4))).bind
      fun cmdsize =>
        if cmd = LC_SEGMENT_64 then
          (readU32 (data.drop (p + 64))).bind fun nsects =>
            (readSegmentSections data nsects (p + 72) st).bind fun st => go n (p + cmdsize) st
        else go n (p + cmdsize) st

/-- The entry `parse_sections` pushes for header `h`. -/
def sectionEntry (data : List UInt8) (h : MachSectionHeader) : Option InputSection :=
  if isUnwindHeader h || h.flags &&& S_ATTR_DEBUG != 0 then none else some (newInputSection data h)

theorem SectionsState.push_sections (data : List UInt8) (st : SectionsState) (h : MachSectionHeader) :
    (st.push data h).sections = st.sections ++ [sectionEntry data h] := by
  unfold SectionsState.push sectionEntry
  by_cases hu : isUnwindHeader h <;> by_cases hd : h.flags &&& S_ATTR_DEBUG = 0 <;> simp [hu, hd]

theorem SectionsState.push_unwindSec (data : List UInt8) (st : SectionsState) (h : MachSectionHeader) :
    (st.push data h).unwindSec = ([h].find? isUnwindHeader).or st.unwindSec := by
  unfold SectionsState.push
  by_cases hu : isUnwindHeader h <;> by_cases hd : h.flags &&& S_ATTR_DEBUG = 0 <;> simp [hu, hd]

/-- Over headers `hs`, the loop pushes one entry per header, in order, and leaves
`unwind_sec` at the last `__LD,__compact_unwind` header. -/
theorem SectionsState.foldl_push (data : List UInt8) (hs : List MachSectionHeader) (st : SectionsState) :
    hs.foldl (SectionsState.push data) st =
      { sections := st.sections ++ hs.map (sectionEntry data),
        unwindSec := (hs.reverse.find? isUnwindHeader).or st.unwindSec } := by
  induction hs generalizing st with
  | nil => simp
  | cons h hs ih =>
    rw [List.foldl_cons, ih, SectionsState.push_sections, SectionsState.push_unwindSec,
      List.reverse_cons, List.find?_append, Option.or_assoc, List.map_cons, List.append_assoc,
      List.singleton_append]

/-! ### Object files laid out by a writer -/

/-- A load command of an object file as a writer lays it out: a segment with its section
headers, the symbol table's offset and count, or another command. -/
inductive ObjectCommand where
  | segment (sections : List MachSectionHeader)
  | symtab (symoff nsyms : Nat)
  | other (cmd : Nat) (body : List UInt8)
  deriving DecidableEq, Repr

/-- The `cmd` and body of a command: for a segment, the 56 bytes of its head up to
`nsects` (zero), `nsects`, a zero `flags` and the headers; for the symbol table,
`symoff`, `nsyms` and a zero string-table position. -/
def ObjectCommand.encode : ObjectCommand → Nat × List UInt8
  | .segment hs => (LC_SEGMENT_64, List.replicate 56 0 ++ encodeU32 hs.length ++ encodeU32 0 ++
      (hs.map MachSectionHeader.encode).flatten)
  | .symtab symoff nsyms => (LC_SYMTAB, encodeU32 symoff ++ encodeU32 nsyms ++ List.replicate 8 0)
  | .other cmd body => (cmd, body)

/-- A segment command takes 72 bytes and 80 per section header. -/
theorem ObjectCommand.segment_cmdsize (hs : List MachSectionHeader) :
    8 + (ObjectCommand.segment hs).encode.2.length = 72 + 80 * hs.length := by
  induction hs with
  | nil => rfl
  | cons h hs ih =>
    simp only [ObjectCommand.encode, List.length_append, List.length_replicate, encodeU32_length,
      List.length_cons, List.map_cons, List.flatten_cons, MachSectionHeader.encode_length] at ih ⊢
    omega

/-- A command `encode` writes faithfully: headers that fit and fields within their
`ul32`s, and another command's `cmd` neither of the two the readers look for. -/
def ObjectCommand.Fits : ObjectCommand → Prop
  | .segment hs => hs.length < 2 ^ 32 ∧ ∀ h ∈ hs, h.Fits
  | .symtab symoff nsyms => symoff < 2 ^ 32 ∧ nsyms < 2 ^ 32
  | .other cmd _ => cmd ≠ LC_SEGMENT_64 ∧ cmd ≠ LC_SYMTAB

instance : DecidablePred ObjectCommand.Fits
  | .segment hs => inferInstanceAs (Decidable (_ ∧ ∀ h ∈ hs, h.Fits))
  | .symtab _ _ => inferInstanceAs (Decidable (_ ∧ _))
  | .other _ _ => inferInstanceAs (Decidable (_ ∧ _))

/-- The section headers of a command. -/
def ObjectCommand.sections : ObjectCommand → List MachSectionHeader
  | .segment hs => hs
  | _ => []

theorem readSegmentSections_encoded {data tail : List UInt8} :
    ∀ {hs : List MachSectionHeader} {p : Nat} (st : SectionsState),
      data.drop p = (hs.map MachSectionHeader.encode).flatten ++ tail → (∀ h ∈ hs, h.Fits) →
      readSegmentSections data hs.length p st = some (hs.foldl (SectionsState.push data) st)
  | [], _, _, _, _ => rfl
  | h :: hs, p, st, hb, hf => by
    rw [List.map_cons, List.flatten_cons, List.append_assoc] at hb
    have hnext := drop_add_of_drop_eq hb
    rw [MachSectionHeader.encode_length] at hnext
    rw [List.length_cons, readSegmentSections, hb, readMachSection_encode (hf h (List.mem_cons_self _ _)),
      Option.some_bind, List.foldl_cons]
    exact readSegmentSections_encoded _ hnext fun h' hh => hf h' (List.mem_cons_of_mem _ hh)

theorem parseSections_go {data rest : List UInt8} :
    ∀ {cmds : List ObjectCommand} {p : Nat} (st : SectionsState),
      CommandsAt data p (cmds.map ObjectCommand.encode) rest → (∀ c ∈ cmds, c.Fits) →
      parseSections.go data cmds.length p st =
        some ((cmds.flatMap ObjectCommand.sections).foldl (SectionsState.push data) st)
  | [], _, _, _, _ => rfl
  | c :: cmds, p, st, h, hf => by
    obtain ⟨hcmd, hsize⟩ := h.head
    have hb := h.bytes
    rw [List.map_cons, List.map_cons, List.flatten_cons, List.append_assoc] at hb
    have hbody := drop_body hb
    have ih : ∀ st', parseSections.go data cmds.length (p + (8 + c.encode.2.length)) st' =
        some ((cmds.flatMap ObjectCommand.sections).foldl (SectionsState.push data) st') :=
      fun st' => parseSections_go st' h.tail fun c' hc' => hf c' (List.mem_cons_of_mem _ hc')
    rw [List.length_cons, parseSections.go, hcmd, Option.some_bind, hsize, Option.some_bind,
      List.flatMap_cons, List.foldl_append]
    cases c with
    | segment hs =>
      obtain ⟨hlen, hfit⟩ := hf _ (List.mem_cons_self _ _)
      simp only [ObjectCommand.encode, List.append_assoc] at hbody
      have hn := drop_add_of_drop_eq hbody
      have hsec := drop_add_of_drop_eq (drop_add_of_drop_eq hn)
      simp only [List.length_replicate, encodeU32_length, Nat.add_assoc, Nat.reduceAdd] at hn hsec
      rw [if_pos (show (ObjectCommand.segment hs).encode.1 = LC_SEGMENT_64 from rfl), hn,
        readU32_encodeU32, Option.some_bind, Nat.mod_eq_of_lt hlen, readSegmentSections_encoded st hsec hfit,
        Option.some_bind]
      exact ih _
    | symtab symoff nsyms =>
      rw [if_neg (show (ObjectCommand.symtab symoff nsyms).encode.1 ≠ LC_SEGMENT_64 from
        (by decide : LC_SYMTAB ≠ LC_SEGMENT_64))]
      exact ih st
    | other cmd body =>
      rw [if_neg (show (ObjectCommand.other cmd body).encode.1 ≠ LC_SEGMENT_64 from
        (hf _ (List.mem_cons_self _ _)).1)]
      exact ih st

/-- On a file whose header counts `cmds` and whose commands a writer laid out after it,
`parse_sections` pushes one entry per section header of every segment, in order, null
exactly for `__LD,__compact_unwind` and for debug sections, and takes the last
`__LD,__compact_unwind` header for `unwind_sec`. -/
theorem parseSections_laidOut {data rest : List UInt8} {cmds : List ObjectCommand}
    (h : CommandsAt data 32 (cmds.map ObjectCommand.encode) rest)
    (hn : readU32 (data.drop 16) = some cmds.length) (hf : ∀ c ∈ cmds, c.Fits) :
    parseSections data = some
      { sections := (cmds.flatMap ObjectCommand.sections).map (sectionEntry data),
        unwindSec := (cmds.flatMap ObjectCommand.sections).reverse.find? isUnwindHeader } := by
  rw [parseSections, hn, Option.some_bind, parseSections_go {} h hf, SectionsState.foldl_push]
  simp

/-! ### `parse_symbols` -/

/-- The `type` of an entry from its three-bit code in `n_type`: `N_UNDF` 0, `N_ABS` 1 and
`N_SECT` 7 once shifted past `is_extern`. -/
def symType : Nat → SymType
  | 0 => .undf
  | 1 => .abs
  | 7 => .sect
  | c => .other c

/-- The three-bit code of a type. -/
def SymType.code : SymType → Nat
  | .undf => 0
  | .abs => 1
  | .sect => 7
  | .other c => c

/-- The `MachSym` at the start of `bytes`: `n_type` at offset 4 (bit 0 `is_extern`,
bits 1 to 3 `type`, bit 4 `is_private_extern`), `n_sect` at 5, `n_desc` at 6 and
`n_value` at 8. -/
def readMachSym (bytes : List UInt8) : Option MachSym :=
  match bytes.drop 4 with
  | ntype :: sect :: d0 :: d1 :: rest =>
    (readU64 rest).map fun value =>
      { isExtern := ntype.toNat % 2 == 1, type := symType (ntype.toNat / 2 % 8),
        isPrivateExtern := ntype.toNat / 16 % 2 == 1, sect := sect.toNat,
        desc := d0.toNat + 256 * d1.toNat, value := value }
  | _ => none

/-- `n` entries from offset `p`. -/
def readSymbolTable (data : List UInt8) : Nat → Nat → Option (List MachSym)
  | 0, _ => some []
  | n + 1, p => (readMachSym (data.drop p)).bind fun m =>
    (readSymbolTable data n (p + 16)).map (m :: ·)

/-- The entries `parse_symbols` reads once `find_load_command(LC_SYMTAB)` returned the
command at `off`: `nsyms` of them at `symoff`; none for a null command. -/
def symtabEntries (data : List UInt8) : Option Nat → Option (List MachSym)
  | none => some []
  | some off => (readU32 (data.drop (off + 8))).bind fun symoff =>
    (readU32 (data.drop (off + 12))).bind fun nsyms => readSymbolTable data nsyms symoff

/-- The `mach_syms` of `ObjectFile::parse_symbols`. -/
def readMachSyms (data : List UInt8) : Option (List MachSym) :=
  (findLoadCommand data LC_SYMTAB).bind (symtabEntries data)

/-- The sixteen bytes of an entry, with a zero `n_strx`. -/
def MachSym.encode (m : MachSym) : List UInt8 :=
  encodeU32 0 ++ [(m.isExtern.toNat + 2 * m.type.code + 16 * m.isPrivateExtern.toNat).toUInt8,
    m.sect.toUInt8, m.desc.toUInt8, (m.desc / 256).toUInt8] ++ encodeU64 m.value

@[simp] theorem MachSym.encode_length (m : MachSym) : m.encode.length = 16 := rfl

/-- An entry `encode` writes faithfully: a type its three-bit code reads back as, and
fields within their widths. -/
def MachSym.Fits (m : MachSym) : Prop :=
  m.type.code < 8 ∧ symType m.type.code = m.type ∧ m.sect < 256 ∧ m.desc < 2 ^ 16 ∧ m.value < 2 ^ 64

instance (m : MachSym) : Decidable m.Fits := inferInstanceAs (Decidable (_ ∧ _ ∧ _ ∧ _ ∧ _))

/-- The `n_type` byte `encode` writes holds its three fields apart. -/
theorem nType_fields (x y : Bool) {c : Nat} (hc : c < 8) :
    x.toNat + 2 * c + 16 * y.toNat < 256 ∧ ((x.toNat + 2 * c + 16 * y.toNat) % 2 == 1) = x ∧
      (x.toNat + 2 * c + 16 * y.toNat) / 2 % 8 = c ∧
      ((x.toNat + 2 * c + 16 * y.toNat) / 16 % 2 == 1) = y := by
  revert x y c
  decide

theorem readMachSym_encode {m : MachSym} (hf : m.Fits) (rest : List UInt8) :
    readMachSym (m.encode ++ rest) = some m := by
  obtain ⟨hc, ht, hs, hd, hv⟩ := hf
  obtain ⟨x, t, y, sect, desc, value⟩ := m
  dsimp only at hc ht hs hd hv ⊢
  obtain ⟨hlt, hx, htc, hy⟩ := nType_fields x y hc
  simp only [readMachSym, MachSym.encode, List.append_assoc, encodeU32, List.cons_append, List.drop_succ_cons,
    List.drop_zero, List.nil_append, readU64_encodeU64, Option.map_some', Option.some.injEq, MachSym.mk.injEq,
    toUInt8_toNat, Nat.mod_eq_of_lt hlt, Nat.mod_eq_of_lt hs, Nat.mod_eq_of_lt hv, hx, htc, ht, hy,
    true_and, and_true]
  omega

theorem readSymbolTable_encoded {data tail : List UInt8} :
    ∀ {syms : List MachSym} {p : Nat}, data.drop p = (syms.map MachSym.encode).flatten ++ tail →
      (∀ m ∈ syms, m.Fits) → readSymbolTable data syms.length p = some syms
  | [], _, _, _ => rfl
  | m :: syms, p, hb, hf => by
    rw [List.map_cons, List.flatten_cons, List.append_assoc] at hb
    have hnext := drop_add_of_drop_eq hb
    rw [MachSym.encode_length] at hnext
    rw [List.length_cons, readSymbolTable, hb, readMachSym_encode (hf m (List.mem_cons_self _ _)),
      Option.some_bind, readSymbolTable_encoded hnext fun m' hm => hf m' (List.mem_cons_of_mem _ hm)]
    rfl

/-- The symbol table's offset and count, for the `LC_SYMTAB` command. -/
def ObjectCommand.symtabPos : ObjectCommand → Option (Nat × Nat)
  | .symtab symoff nsyms => some (symoff, nsyms)
  | _ => none

/-- `parse_symbols` reads the table the first `LC_SYMTAB` of a laid-out area names. -/
theorem symtabEntries_go {data rest : List UInt8} :
    ∀ {cmds : List ObjectCommand} {p : Nat}, CommandsAt data p (cmds.map ObjectCommand.encode) rest →
      (∀ c ∈ cmds, c.Fits) →
      (findLoadCommand.go data LC_SYMTAB cmds.length p).bind (symtabEntries data) =
        (cmds.findSome? ObjectCommand.symtabPos).elim (some []) fun t => readSymbolTable data t.2 t.1
  | [], _, _, _ => rfl
  | c :: cmds, p, h, hf => by
    obtain ⟨hcmd, hsize⟩ := h.head
    have hb := h.bytes
    rw [List.map_cons, List.map_cons, List.flatten_cons, List.append_assoc] at hb
    have hbody := drop_body hb
    have ih := symtabEntries_go h.tail fun c' hc' => hf c' (List.mem_cons_of_mem _ hc')
    rw [List.length_cons, findLoadCommand.go, hcmd, Option.some_bind, List.findSome?_cons]
    cases c with
    | symtab symoff nsyms =>
      obtain ⟨hs, hn⟩ := hf _ (List.mem_cons_self _ _)
      simp only [ObjectCommand.encode, List.append_assoc] at hbody
      have h12 := drop_add_of_drop_eq hbody
      rw [encodeU32_length, Nat.add_assoc] at h12
      simp only [ObjectCommand.encode, if_true, Option.some_bind, symtabEntries, hbody, h12,
        readU32_encodeU32, Nat.mod_eq_of_lt hs, Nat.mod_eq_of_lt hn, ObjectCommand.symtabPos, Option.elim]
    | segment hs =>
      rw [if_neg (show (ObjectCommand.segment hs).encode.1 ≠ LC_SYMTAB from
        (by decide : LC_SEGMENT_64 ≠ LC_SYMTAB)), hsize, Option.some_bind]
      exact ih
    | other cmd body =>
      rw [if_neg (show (ObjectCommand.other cmd body).encode.1 ≠ LC_SYMTAB from
        (hf _ (List.mem_cons_self _ _)).2), hsize, Option.some_bind]
      exact ih

/-- The table the first `LC_SYMTAB` of `cmds` names holds `syms`, each laid out
faithfully; without the command there are no entries. -/
def SymtabAt (data : List UInt8) (cmds : List ObjectCommand) (syms : List MachSym) : Prop :=
  match cmds.findSome? ObjectCommand.symtabPos with
  | none => syms = []
  | some (symoff, nsyms) => nsyms = syms.length ∧ (∀ m ∈ syms, m.Fits) ∧
      ∃ rest, data.drop symoff = (syms.map MachSym.encode).flatten ++ rest

theorem readMachSyms_laidOut {data rest : List UInt8} {cmds : List ObjectCommand} {syms : List MachSym}
    (h : CommandsAt data 32 (cmds.map ObjectCommand.encode) rest)
    (hn : readU32 (data.drop 16) = some cmds.length) (hf : ∀ c ∈ cmds, c.Fits)
    (hsyms : SymtabAt data cmds syms) : readMachSyms data = some syms := by
  rw [readMachSyms, findLoadCommand, hn, Option.some_bind, symtabEntries_go h hf]
  unfold SymtabAt at hsyms
  split at hsyms
  · rename_i hnone
    rw [hnone, hsyms]
    rfl
  · rename_i symoff nsyms hsome
    obtain ⟨rfl, hfit, tail, hb⟩ := hsyms
    rw [hsome]
    exact readSymbolTable_encoded hb hfit

end SoldMacho
