import SoldMacho.Dylib

/-!
# Load commands

A Mach-O file starts with a 32-byte header whose fifth `ul32` is `ncmds`; the load
commands follow, each starting with its `cmd` and its `cmdsize`, the size of the whole
command.  `ObjectFile::find_load_command` walks them by `cmdsize` and stops at the first
command of the requested type; `get_linker_options` reads the strings of
`LC_LINKER_OPTION` and `parse_data_in_code` the table position of `LC_DATA_IN_CODE`.

`DylibFile::parse_dylib` makes the same walk over a dylib and handles `LC_ID_DYLIB`,
`LC_DYLD_INFO_ONLY`, `LC_DYLD_EXPORTS_TRIE` and `LC_REEXPORT_DYLIB`; the dylib module
models it over the commands already read (`parseDylib`), and this module reads them
from the bytes (`parseDylibData`).

The readers check no bound: a read past the end of the file is `none` here.  On a file
laid out by `encodeCommand`, `find_load_command` returns the offset of the first command
of its type (`findLoadCommand_laidOut`), `get_linker_options` returns the strings
written into `LC_LINKER_OPTION` (`getLinkerOptions_laidOut`), and `parse_dylib` handles
exactly the commands written (`parseDylibData_laidOut`).  The structs' layouts are
declared outside the sources and are written from `<mach-o/loader.h>`; names are read
one character per byte.
-/

namespace SoldMacho

/-- `LC_LINKER_OPTION` of `<mach-o/loader.h>`. -/
def LC_LINKER_OPTION : Nat := 0x2D

/-- `LC_DATA_IN_CODE` of `<mach-o/loader.h>`. -/
def LC_DATA_IN_CODE : Nat := 0x29

/-- A little-endian `ul32` at the start of `bytes`; `none` past the end of the file. -/
def readU32 : List UInt8 → Option Nat
  | b0 :: b1 :: b2 :: b3 :: _ => some (b0.toNat + 256 * (b1.toNat + 256 * (b2.toNat + 256 * b3.toNat)))
  | _ => none

/-- The four little-endian bytes of the low 32 bits of `n`. -/
def encodeU32 (n : Nat) : List UInt8 :=
  [n.toUInt8, (n / 2 ^ 8).toUInt8, (n / 2 ^ 16).toUInt8, (n / 2 ^ 24).toUInt8]

@[simp] theorem encodeU32_length (n : Nat) : (encodeU32 n).length = 4 := rfl

theorem readU32_encodeU32 (n : Nat) (rest : List UInt8) :
    readU32 (encodeU32 n ++ rest) = some (n % 2 ^ 32) := by
  simp only [encodeU32, readU32, List.cons_append, List.nil_append, toUInt8_toNat, Option.some.injEq]
  rw [show (2 : Nat) ^ 32 = 256 * (256 * (256 * 256)) from rfl, Nat.mod_mul, Nat.mod_mul, Nat.mod_mul,
    Nat.div_div_eq_div_mul, Nat.div_div_eq_div_mul]
  rfl

/-- `ObjectFile::find_load_command`: the offset of the first of the `ncmds` commands
whose `cmd` is `type`, or `none` for the null result; the outer `none` is a read past
the end of the file. -/
def findLoadCommand (data : List UInt8) (type : Nat) : Option (Option Nat) :=
  (readU32 (data.drop 16)).bind fun ncmds => go ncmds 32
where
  /-- The loop from the command at offset `p`, with `n` commands left. -/
  go : Nat → Nat → Option (Option Nat)
    | 0, _ => some none
    | n + 1, p => (readU32 (data.drop p)).bind fun cmd =>
      if cmd = type then some (some p)
      else (readU32 (data.drop (p + 4))).bind fun cmdsize => go n (p + cmdsize)

/-- The bytes of a load command `(cmd, body)`: `cmd`, `cmdsize` (the 8-byte head
included), then the body. -/
def encodeCommand (c : Nat × List UInt8) : List UInt8 :=
  encodeU32 c.1 ++ encodeU32 (8 + c.2.length) ++ c.2

@[simp] theorem encodeCommand_length (c : Nat × List UInt8) :
    (encodeCommand c).length = 8 + c.2.length := by
  simp [encodeCommand]; omega

/-- The offset of command `i` of a laid-out command area starting at `p`. -/
def commandOffset (p : Nat) : List (Nat × List UInt8) → Nat → Nat
  | c :: cmds, i + 1 => commandOffset (p + (8 + c.2.length)) cmds i
  | _, _ => p

/-- A command area holding `cmds`, whose fields fit in their `ul32`s. -/
structure CommandsAt (data : List UInt8) (p : Nat) (cmds : List (Nat × List UInt8))
    (rest : List UInt8) : Prop where
  bytes : data.drop p = (cmds.map encodeCommand).flatten ++ rest
  fits : ∀ c ∈ cmds, c.1 < 2 ^ 32 ∧ 8 + c.2.length < 2 ^ 32

theorem CommandsAt.tail {data rest : List UInt8} {p : Nat} {c : Nat × List UInt8}
    {cmds : List (Nat × List UInt8)} (h : CommandsAt data p (c :: cmds) rest) :
    CommandsAt data (p + (8 + c.2.length)) cmds rest where
  bytes := by
    have hb := h.bytes
    rw [List.map_cons, List.flatten_cons, List.append_assoc] at hb
    simpa using drop_add_of_drop_eq hb
  fits c' hc' := h.fits c' (List.mem_cons_of_mem _ hc')

theorem CommandsAt.head {data rest : List UInt8} {p : Nat} {c : Nat × List UInt8}
    {cmds : List (Nat × List UInt8)} (h : CommandsAt data p (c :: cmds) rest) :
    readU32 (data.drop p) = some c.1 ∧ readU32 (data.drop (p + 4)) = some (8 + c.2.length) := by
  have hb := h.bytes
  obtain ⟨h1, h2⟩ := h.fits c (List.mem_cons_self _ _)
  simp only [List.map_cons, List.flatten_cons, encodeCommand, List.append_assoc] at hb
  refine ⟨by rw [hb, readU32_encodeU32, Nat.mod_eq_of_lt h1], ?_⟩
  rw [show p + 4 = p + (encodeU32 c.1).length from rfl, drop_add_of_drop_eq hb,
    readU32_encodeU32, Nat.mod_eq_of_lt h2]

/-- The loop of `find_load_command` over a laid-out area stops at the first command of
its type. -/
theorem findLoadCommand_go {data rest : List UInt8} (type : Nat) :
    ∀ {cmds : List (Nat × List UInt8)} {p : Nat}, CommandsAt data p cmds rest →
      findLoadCommand.go data type cmds.length p =
        some ((cmds.findIdx? (·.1 = type)).map (commandOffset p cmds))
  | [], _, _ => rfl
  | c :: cmds, p, h => by
    obtain ⟨hcmd, hsize⟩ := h.head
    rw [List.length_cons, findLoadCommand.go, hcmd, Option.some_bind, List.findIdx?_cons]
    by_cases hc : c.1 = type
    · simp [hc, commandOffset]
    · rw [if_neg hc, hsize, Option.some_bind, findLoadCommand_go type h.tail]
      simp only [hc, decide_False, Bool.false_eq_true, if_false, Nat.zero_add, List.findIdx?_succ,
        Option.map_map]
      rfl

/-- On a file whose header counts `cmds` and whose commands are laid out after it,
`find_load_command` returns the offset of the first command of the requested type, or
the null result when there is none. -/
theorem findLoadCommand_laidOut {data rest : List UInt8} {cmds : List (Nat × List UInt8)}
    (h : CommandsAt data 32 cmds rest) (hn : readU32 (data.drop 16) = some cmds.length) (type : Nat) :
    findLoadCommand data type = some ((cmds.findIdx? (·.1 = type)).map (commandOffset 32 cmds)) := by
  rw [findLoadCommand, hn, Option.some_bind, findLoadCommand_go type h]

theorem CommandsAt.drop_offset {data rest : List UInt8} :
    ∀ {cmds : List (Nat × List UInt8)} {p i : Nat}, CommandsAt data p cmds rest → i ≤ cmds.length →
      CommandsAt data (commandOffset p cmds i) (cmds.drop i) rest
  | _, _, 0, h, _ => by simpa [commandOffset] using h
  | [], _, _ + 1, _, hi => absurd hi (by simp)
  | _ :: _, _, _ + 1, h, hi => by
    have := CommandsAt.drop_offset h.tail (Nat.le_of_succ_le_succ hi)
    exact this

/-! ### `get_linker_options` -/

/-- The `count` NUL-terminated strings from offset `pos`, each read up to its NUL. -/
def readStrings (data : List UInt8) : Nat → Nat → List (List UInt8)
  | 0, _ => []
  | n + 1, pos => cString (data.drop pos) :: readStrings data n (pos + (cString (data.drop pos)).length + 1)

/-- `ObjectFile::get_linker_options`: the strings after the 12-byte head (`cmd`,
`cmdsize`, `count`) of the first `LC_LINKER_OPTION`; none for a bitcode file or a file
without the command. -/
def getLinkerOptions (data : List UInt8) (isBitcode : Bool) : Option (List (List UInt8)) :=
  if isBitcode then some []
  else (findLoadCommand data LC_LINKER_OPTION).bind fun
    | none => some []
    | some off => (readU32 (data.drop (off + 8))).map fun count => readStrings data count (off + 12)

/-- The body of an `LC_LINKER_OPTION` command: `count`, the strings with their NULs, and
any padding. -/
def linkerOptionBody (opts : List (List UInt8)) (pad : List UInt8) : List UInt8 :=
  encodeU32 opts.length ++ (opts.map (· ++ [0])).flatten ++ pad

theorem cString_append_nul {s t : List UInt8} (hs : 0 ∉ s) : cString (s ++ 0 :: t) = s := by
  rw [cString, List.takeWhile_append_of_pos (fun a ha => by simpa using ne_of_mem_of_not_mem ha hs)]
  simp

theorem readStrings_encoded {data rest : List UInt8} :
    ∀ {opts : List (List UInt8)} {pos : Nat}, (∀ s ∈ opts, 0 ∉ s) →
      data.drop pos = (opts.map (· ++ [0])).flatten ++ rest → readStrings data opts.length pos = opts
  | [], _, _, _ => rfl
  | s :: opts, pos, hz, h => by
    rw [List.map_cons, List.flatten_cons, List.append_assoc] at h
    have hs : cString (data.drop pos) = s := by
      rw [h, List.append_assoc, List.singleton_append, cString_append_nul (hz s (List.mem_cons_self _ _))]
    have hnext := drop_add_of_drop_eq h
    rw [List.length_append, List.length_singleton, ← Nat.add_assoc] at hnext
    rw [List.length_cons, readStrings, hs,
      readStrings_encoded (fun t ht => hz t (List.mem_cons_of_mem _ ht)) hnext]

/-- On a laid-out file whose first `LC_LINKER_OPTION` carries `opts`, strings without
NUL, `get_linker_options` returns `opts`. -/
theorem getLinkerOptions_laidOut {data rest : List UInt8} {cmds : List (Nat × List UInt8)}
    (h : CommandsAt data 32 cmds rest) (hn : readU32 (data.drop 16) = some cmds.length) {i : Nat}
    (hi : cmds.findIdx? (·.1 = LC_LINKER_OPTION) = some i) {opts : List (List UInt8)}
    {pad : List UInt8} (hc : cmds[i]? = some (LC_LINKER_OPTION, linkerOptionBody opts pad))
    (hz : ∀ s ∈ opts, 0 ∉ s) (hlen : opts.length < 2 ^ 32) :
    getLinkerOptions data false = some opts := by
  have hlt : i < cmds.length := (List.getElem?_eq_some_iff.mp hc).1
  have hat := (h.drop_offset (Nat.le_of_lt hlt)).bytes
  rw [List.drop_eq_getElem_cons hlt, List.map_cons, List.flatten_cons,
    (List.getElem?_eq_some_iff.mp hc).2] at hat
  have h8 : data.drop (commandOffset 32 cmds i + 8) = encodeU32 opts.length ++
      ((opts.map (· ++ [0])).flatten ++
        (pad ++ ((cmds.drop (i + 1)).map encodeCommand).flatten ++ rest)) := by
    have := drop_add_of_drop_eq
      (X := encodeU32 LC_LINKER_OPTION ++ encodeU32 (8 + (linkerOptionBody opts pad).length))
      (by rw [hat]; simp only [encodeCommand, linkerOptionBody, List.append_assoc]; rfl)
    simpa only [List.length_append, encodeU32_length, linkerOptionBody, List.append_assoc] using this
  have h12 := drop_add_of_drop_eq h8
  rw [encodeU32_length, Nat.add_assoc] at h12
  simp only [getLinkerOptions, findLoadCommand, hn, Option.some_bind, findLoadCommand_go _ h, hi,
    Option.map_some', Bool.false_eq_true, if_false, h8, readU32_encodeU32, Nat.mod_eq_of_lt hlen]
  rw [readStrings_encoded hz h12]

/-- Two commands: an `LC_SEGMENT_64` with a four-byte body, then `LC_LINKER_OPTION`
carrying `-lc` and three bytes of padding. -/
def optionCommands : List (Nat × List UInt8) :=
  [(0x19, [1, 2, 3, 4]), (LC_LINKER_OPTION, linkerOptionBody [[45, 108, 99]] [0, 0, 0])]

/-- A file of `optionCommands` after a header of zeros but for `ncmds`. -/
def optionFile : List UInt8 :=
  List.replicate 16 0 ++ encodeU32 2 ++ List.replicate 12 0 ++ (optionCommands.map encodeCommand).flatten

theorem optionFile_commandsAt : CommandsAt optionFile 32 optionCommands [] :=
  ⟨by decide, by decide⟩

theorem optionFile_findLoadCommand : findLoadCommand optionFile LC_LINKER_OPTION = some (some 44) := by
  rw [findLoadCommand_laidOut optionFile_commandsAt rfl]
  rfl

theorem optionFile_linkerOptions : getLinkerOptions optionFile false = some [[45, 108, 99]] :=
  getLinkerOptions_laidOut optionFile_commandsAt rfl (i := 1) rfl rfl
    (by decide) (by decide)

/-! ### `parse_data_in_code` -/

/-- `ObjectFile::parse_data_in_code`: the offset and number of the 8-byte
`DataInCodeEntry` records `LC_DATA_IN_CODE` names (`dataoff`, `datasize / 8`), if the
file has the command. -/
def parseDataInCode (data : List UInt8) : Option (Option (Nat × Nat)) :=
  (findLoadCommand data LC_DATA_IN_CODE).bind fun
    | none => some none
    | some off => (readU32 (data.drop (off + 8))).bind fun dataoff =>
      (readU32 (data.drop (off + 12))).map fun datasize => some (dataoff, datasize / 8)

/-! ### `DylibFile::parse_dylib` -/

/-- `LC_ID_DYLIB` of `<mach-o/loader.h>`. -/
def LC_ID_DYLIB : Nat := 0xd

/-- `LC_REEXPORT_DYLIB` of `<mach-o/loader.h>`. -/
def LC_REEXPORT_DYLIB : Nat := 0x8000001f

/-- `LC_DYLD_INFO_ONLY` of `<mach-o/loader.h>`. -/
def LC_DYLD_INFO_ONLY : Nat := 0x80000022

/-- `LC_DYLD_EXPORTS_TRIE` of `<mach-o/loader.h>`. -/
def LC_DYLD_EXPORTS_TRIE : Nat := 0x80000033

/-- A name read through `(char *)`: one character per byte. -/
def bytesToString (bytes : List UInt8) : String := ⟨bytes.map fun b => Char.ofNat b.toNat⟩

/-- The `switch` of `parse_dylib` on the command at offset `p`, whose `cmd` is `cmd`: the
name at `nameoff` of `LC_ID_DYLIB` and `LC_REEXPORT_DYLIB`, the `export_off` of
`LC_DYLD_INFO_ONLY` and the `dataoff` of `LC_DYLD_EXPORTS_TRIE`. -/
def readDylibCommand (data : List UInt8) (p cmd : Nat) : Option DylibLoadCommand :=
  if cmd = LC_ID_DYLIB then
    (readU32 (data.drop (p + 8))).map fun off => .idDylib (bytesToString (cString (data.drop (p + off))))
  else if cmd = LC_DYLD_INFO_ONLY then (readU32 (data.drop (p + 40))).map .dyldInfoOnly
  else if cmd = LC_DYLD_EXPORTS_TRIE then (readU32 (data.drop (p + 8))).map .dyldExportsTrie
  else if cmd = LC_REEXPORT_DYLIB then
    (readU32 (data.drop (p + 8))).map fun off => .reexportDylib (bytesToString (cString (data.drop (p + off))))
  else some (.other cmd)

/-- `DylibFile::parse_dylib` on the bytes of the file: each of the `ncmds` commands read
and handled in turn, then skipped by its `cmdsize`. -/
def parseDylibData (data : List UInt8) : Option DylibInfo :=
  (readU32 (data.drop 16)).bind fun ncmds => go ncmds 32 {}
where
  /-- The loop from the command at offset `p`, with `n` commands left. -/
  go : Nat → Nat → DylibInfo → Option DylibInfo
    | 0, _, d => some d
    | n + 1, p, d => (readU32 (data.drop p)).bind fun cmd =>
      (readDylibCommand data p cmd).bind fun c => (parseDylibCommand data d c).bind fun d =>
        (readU32 (data.drop (p + 4))).bind fun cmdsize => go n (p + cmdsize) d

/-- The bytes of a name, one per character. -/
def stringBytes (s : String) : List UInt8 := s.toList.map fun c => c.toNat.toUInt8

/-- The command a loader writes for `c`: a name at offset 24, after the `dylib` fields
(`timestamp`, `current_version`, `compatibility_version`), NUL-terminated; `export_off`
at offset 40; `dataoff` at offset 8. -/
def encodeDylibCommand : DylibLoadCommand → Nat × List UInt8
  | .idDylib name => (LC_ID_DYLIB, encodeU32 24 ++ List.replicate 12 0 ++ stringBytes name ++ [0])
  | .dyldInfoOnly off => (LC_DYLD_INFO_ONLY, List.replicate 32 0 ++ encodeU32 off ++ encodeU32 0)
  | .dyldExportsTrie off => (LC_DYLD_EXPORTS_TRIE, encodeU32 off ++ encodeU32 0)
  | .reexportDylib name => (LC_REEXPORT_DYLIB, encodeU32 24 ++ List.replicate 12 0 ++ stringBytes name ++ [0])
  | .other cmd => (cmd, [])

/-- A name `encodeDylibCommand` can write: each character one nonzero byte. -/
def NameFits (s : String) : Prop := ∀ c ∈ s.toList, 0 < c.toNat ∧ c.toNat < 256

/-- A command `encodeDylibCommand` writes faithfully: names that fit, offsets that fit
in a `ul32`, and another command's `cmd` none of the four `parse_dylib` handles. -/
def DylibCommandFits : DylibLoadCommand → Prop
  | .idDylib name => NameFits name
  | .dyldInfoOnly off => off < 2 ^ 32
  | .dyldExportsTrie off => off < 2 ^ 32
  | .reexportDylib name => NameFits name
  | .other cmd => cmd ≠ LC_ID_DYLIB ∧ cmd ≠ LC_DYLD_INFO_ONLY ∧ cmd ≠ LC_DYLD_EXPORTS_TRIE ∧
      cmd ≠ LC_REEXPORT_DYLIB

instance (s : String) : Decidable (NameFits s) :=
  inferInstanceAs (Decidable (∀ c ∈ s.toList, _))

instance : DecidablePred DylibCommandFits
  | .idDylib name => inferInstanceAs (Decidable (NameFits name))
  | .dyldInfoOnly off => inferInstanceAs (Decidable (off < 2 ^ 32))
  | .dyldExportsTrie off => inferInstanceAs (Decidable (off < 2 ^ 32))
  | .reexportDylib name => inferInstanceAs (Decidable (NameFits name))
  | .other _ => inferInstanceAs (Decidable (_ ∧ _ ∧ _ ∧ _))

theorem bytesToString_stringBytes {s : String} (hs : NameFits s) : bytesToString (stringBytes s) = s := by
  refine String.ext ((List.map_map _ _ _).trans ((List.map_congr_left fun c hc => ?_).trans (List.map_id _)))
  simp only [Function.comp, toUInt8_toNat, Nat.mod_eq_of_lt (hs c hc).2, Char.ofNat_toNat, id]

theorem zero_not_mem_stringBytes {s : String} (hs : NameFits s) : 0 ∉ stringBytes s := by
  intro h
  obtain ⟨c, hc, hc0⟩ := List.mem_map.mp h
  have h0 : (c.toNat.toUInt8).toNat = 0 := by rw [hc0]; rfl
  rw [toUInt8_toNat] at h0
  have := hs c hc
  omega

theorem bytesToString_cString_stringBytes {s : String} (hs : NameFits s) (t : List UInt8) :
    bytesToString (cString (stringBytes s ++ 0 :: t)) = s := by
  rw [cString_append_nul (zero_not_mem_stringBytes hs), bytesToString_stringBytes hs]

theorem drop_body {data tail : List UInt8} {p : Nat} {c : Nat × List UInt8}
    (h : data.drop p = encodeCommand c ++ tail) : data.drop (p + 8) = c.2 ++ tail := by
  rw [encodeCommand, List.append_assoc, List.append_assoc] at h
  simpa [List.append_assoc] using drop_add_of_drop_eq (X := encodeU32 c.1 ++ encodeU32 (8 + c.2.length))
    (by rw [h, List.append_assoc])

/-- `parse_dylib` reads back the command `encodeDylibCommand` wrote. -/
theorem readDylibCommand_encoded {data tail : List UInt8} {p : Nat} {dc : DylibLoadCommand}
    (hf : DylibCommandFits dc) (h : data.drop p = encodeCommand (encodeDylibCommand dc) ++ tail) :
    readDylibCommand data p (encodeDylibCommand dc).1 = some dc := by
  have hb := drop_body h
  cases dc with
  | idDylib name =>
    simp only [encodeDylibCommand, List.append_assoc] at hb
    have hname := drop_add_of_drop_eq (drop_add_of_drop_eq hb)
    simp only [encodeU32_length, List.length_replicate, Nat.add_assoc] at hname
    simp only [readDylibCommand, encodeDylibCommand, if_true, hb, readU32_encodeU32, Option.map_some']
    rw [show p + 24 % 2 ^ 32 = p + (8 + (4 + 12)) from rfl, hname, List.singleton_append,
      bytesToString_cString_stringBytes hf]
  | dyldInfoOnly off =>
    simp only [encodeDylibCommand, List.append_assoc] at hb
    have hoff := drop_add_of_drop_eq hb
    simp only [List.length_replicate, Nat.add_assoc] at hoff
    simp only [readDylibCommand, encodeDylibCommand, show LC_DYLD_INFO_ONLY ≠ LC_ID_DYLIB by decide,
      if_false, if_true, show p + 40 = p + (8 + 32) from rfl, hoff, readU32_encodeU32,
      Nat.mod_eq_of_lt (show off < 2 ^ 32 from hf), Option.map_some']
  | dyldExportsTrie off =>
    simp only [encodeDylibCommand, List.append_assoc] at hb
    simp only [readDylibCommand, encodeDylibCommand, show LC_DYLD_EXPORTS_TRIE ≠ LC_ID_DYLIB by decide,
      show LC_DYLD_EXPORTS_TRIE ≠ LC_DYLD_INFO_ONLY by decide, if_false, if_true, hb,
      readU32_encodeU32, Nat.mod_eq_of_lt (show off < 2 ^ 32 from hf), Option.map_some']
  | reexportDylib name =>
    simp only [encodeDylibCommand, List.append_assoc] at hb
    have hname := drop_add_of_drop_eq (drop_add_of_drop_eq hb)
    simp only [encodeU32_length, List.length_replicate, Nat.add_assoc] at hname
    simp only [readDylibCommand, encodeDylibCommand, show LC_REEXPORT_DYLIB ≠ LC_ID_DYLIB by decide,
      show LC_REEXPORT_DYLIB ≠ LC_DYLD_INFO_ONLY by decide,
      show LC_REEXPORT_DYLIB ≠ LC_DYLD_EXPORTS_TRIE by decide, if_false, if_true, hb, readU32_encodeU32,
      Option.map_some']
    rw [show p + 24 % 2 ^ 32 = p + (8 + (4 + 12)) from rfl, hname, List.singleton_append,
      bytesToString_cString_stringBytes hf]
  | other cmd =>
    obtain ⟨h1, h2, h3, h4⟩ := hf
    simp [readDylibCommand, encodeDylibCommand, h1, h2, h3, h4]

theorem parseDylibData_go {data rest : List UInt8} :
    ∀ {cmds : List DylibLoadCommand} {p : Nat} (d : DylibInfo),
      CommandsAt data p (cmds.map encodeDylibCommand) rest → (∀ c ∈ cmds, DylibCommandFits c) →
      parseDylibData.go data cmds.length p d = cmds.foldlM (parseDylibCommand data) d
  | [], _, _, _, _ => rfl
  | c :: cmds, p, d, h, hf => by
    obtain ⟨hcmd, hsize⟩ := h.head
    have hb := h.bytes
    rw [List.map_cons, List.map_cons, List.flatten_cons, List.append_assoc] at hb
    rw [List.length_cons, parseDylibData.go, hcmd, Option.some_bind,
      readDylibCommand_encoded (hf c (List.mem_cons_self _ _)) hb, Option.some_bind, List.foldlM_cons]
    show ((parseDylibCommand data d c).bind fun d => _) = (parseDylibCommand data d c).bind _
    congr 1
    funext d'
    rw [hsize, Option.some_bind]
    exact parseDylibData_go d' h.tail fun c' hc' => hf c' (List.mem_cons_of_mem _ hc')

/-- On a dylib whose header counts `cmds` and whose commands are the ones a loader
writes for them, `parse_dylib` on the bytes handles exactly `cmds`, in order: the
command-level `parseDylib` that `DylibFile::create` is modelled with. -/
theorem parseDylibData_laidOut {data rest : List UInt8} {cmds : List DylibLoadCommand}
    (h : CommandsAt data 32 (cmds.map encodeDylibCommand) rest)
    (hn : readU32 (data.drop 16) = some cmds.length) (hf : ∀ c ∈ cmds, DylibCommandFits c) :
    parseDylibData data = parseDylib data cmds := by
  rw [parseDylibData, hn, Option.some_bind, parseDylibData_go {} h hf]
  rfl

/-- `libfoo.dylib`'s install name, then its export trie at offset 85, right after the
commands: a root node with no terminal and no children. -/
def fooDylibCommands : List DylibLoadCommand := [.idDylib "libfoo.dylib", .dyldExportsTrie 85]

/-- The bytes of `fooDylibCommands` after a header of zeros but for `ncmds`. -/
def fooDylib : List UInt8 :=
  List.replicate 16 0 ++ encodeU32 2 ++ List.replicate 12 0 ++
    ((fooDylibCommands.map encodeDylibCommand).map encodeCommand).flatten ++ [0, 0]

theorem fooDylib_parseDylib : parseDylibData fooDylib = parseDylib fooDylib fooDylibCommands :=
  parseDylibData_laidOut
    (⟨by decide, by decide⟩ : CommandsAt fooDylib 32 (fooDylibCommands.map encodeDylibCommand) [0, 0])
    rfl (by decide)

end SoldMacho
