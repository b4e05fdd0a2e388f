import SoldMacho.Basic
import Mathlib.Data.List.Basic

/-!
# The export trie of a dylib

`DylibFile::read_trie` walks the export trie of `LC_DYLD_INFO_ONLY` or
`LC_DYLD_EXPORTS_TRIE`: a node starts with its terminal (a ULEB128 payload size, then the
payload) or a zero byte, then a one-byte child count, then each child's NUL-terminated
label and ULEB128 node offset.  `read_trie` reads a terminal as three ULEB128 numbers
(size, flags, address) and the child count from the byte after them, which is the
layout of a regular terminal only.

`encodeUleb` and `encodeNode` write the format.  The reader inverts them on regular
terminals: `readUleb_encodeUleb` for numbers, `readNodeHeader_regular` and
`readChildren_encoded` for one node, and `readTrie_laidOut` for a whole trie laid out at
any node offsets, whose names `layoutNames` lists.  On a stub-and-resolver terminal it
does not: the module ends with a trie whose second name `read_trie` never reaches.

`read_uleb` is declared outside the sources; `readUleb` is written from the ULEB128
encoding.  Names are byte strings.
-/

namespace SoldMacho

/-- `EXPORT_SYMBOL_FLAGS_WEAK_DEFINITION` of `<mach-o/loader.h>`. -/
def EXPORT_SYMBOL_FLAGS_WEAK_DEFINITION : Nat := 0x04

/-- `EXPORT_SYMBOL_FLAGS_REEXPORT` of `<mach-o/loader.h>`. -/
def EXPORT_SYMBOL_FLAGS_REEXPORT : Nat := 0x08

/-- `EXPORT_SYMBOL_FLAGS_STUB_AND_RESOLVER` of `<mach-o/loader.h>`. -/
def EXPORT_SYMBOL_FLAGS_STUB_AND_RESOLVER : Nat := 0x10

/-- `read_uleb`, from the ULEB128 encoding: seven bits per byte, low group first, while
the top bit is set.  The value and the number of bytes read; reading stops at the end
of the buffer. -/
def readUleb : List UInt8 → Nat × Nat
  | [] => (0, 0)
  | b :: rest =>
    if b.toNat < 128 then (b.toNat, 1)
    else ((b.toNat % 128) + 128 * (readUleb rest).1, (readUleb rest).2 + 1)

/-- The NUL-terminated string at the start of `bytes`. -/
def cString (bytes : List UInt8) : List UInt8 := bytes.takeWhile (· ≠ 0)

/-- The head of the node at `offset` as `read_trie` reads it: the flags of its terminal,
if its first byte is nonzero (size, flags and address read as ULEB128 numbers), and the
position of the child count. -/
def readNodeHeader (bytes : List UInt8) (offset : Nat) : Option Nat × Nat :=
  if bytes.getD offset 0 ≠ 0 then
    let n1 := (readUleb (bytes.drop offset)).2
    let flags := readUleb (bytes.drop (offset + n1))
    let n3 := (readUleb (bytes.drop (offset + n1 + flags.2))).2
    (some flags.1, offset + n1 + flags.2 + n3)
  else (none, offset + 1)

/-- The names one `read_trie` call inserts, in order, each with whether it goes to
`weak_exports`. -/
abbrev TrieNames := List (List UInt8 × Bool)

/-- The child loop of `read_trie`: `count` children from position `pos`, each label
appended to `pfx` and its node read by `visit`. -/
def readChildren (bytes : List UInt8) (visit : Nat → List UInt8 → Option TrieNames)
    (pfx : List UInt8) : (count pos : Nat) → Option TrieNames
  | 0, _ => some []
  | count + 1, pos =>
    let suffix := cString (bytes.drop pos)
    let p := pos + suffix.length + 1
    let off := readUleb (bytes.drop p)
    match visit off.1 (pfx ++ suffix), readChildren bytes visit pfx count (p + off.2) with
    | some a, some b => some (a ++ b)
    | _, _ => none

/-- `DylibFile::read_trie` on the node at `offset` under `prefix`, within `fuel` nested
calls: `none` when the bound runs out (the source recurses without bound on a cyclic
trie). -/
def readTrie (bytes : List UInt8) : (fuel offset : Nat) → (pfx : List UInt8) → Option TrieNames
  | 0, _, _ => none
  | fuel + 1, offset, pfx =>
    let (flags, pos) := readNodeHeader bytes offset
    let own : TrieNames := match flags with
      | none => []
      | some f => [(pfx, f = EXPORT_SYMBOL_FLAGS_WEAK_DEFINITION)]
    (readChildren bytes (readTrie bytes fuel) pfx (bytes.getD pos 0).toNat (pos + 1)).map
      (own ++ ·)

/-- The call of `parse_dylib`: the whole trie from the root with an empty prefix; a
trie of `n` bytes has fewer than `n` nodes on any path. -/
def readExportTrie (bytes : List UInt8) : Option TrieNames := readTrie bytes bytes.length 0 []

/-! ### Writing the format -/

/-- The ULEB128 encoding. -/
def encodeUleb (n : Nat) : List UInt8 := go n n
where
  /-- The encoding within `fuel` continuation bytes (`n` of them are enough). -/
  go : Nat → Nat → List UInt8
    | 0, n => [n.toUInt8]
    | fuel + 1, n => if n < 128 then [n.toUInt8] else (n % 128 + 128).toUInt8 :: go fuel (n / 128)

/-- A terminal's payload, as the format lays it out after its size. -/
inductive TrieTerminal where
  | regular (flags addr : Nat)
  | reexport (flags ordinal : Nat) (importName : List UInt8)
  | stubAndResolver (flags stub resolver : Nat)
  deriving DecidableEq, Repr

/-- The payload bytes of a terminal. -/
def TrieTerminal.encode : TrieTerminal → List UInt8
  | regular flags addr => encodeUleb flags ++ encodeUleb addr
  | reexport flags ordinal name => encodeUleb flags ++ encodeUleb ordinal ++ name ++ [0]
  | stubAndResolver flags stub resolver =>
    encodeUleb flags ++ encodeUleb stub ++ encodeUleb resolver

/-- The flags of a terminal. -/
def TrieTerminal.flags : TrieTerminal → Nat
  | regular f _ | reexport f _ _ | stubAndResolver f _ _ => f

/-- A node's terminal, its size then its payload, or a zero byte for none. -/
def encodeTerminal : Option TrieTerminal → List UInt8
  | none => [0]
  | some t => encodeUleb t.encode.length ++ t.encode

/-- A child edge: the NUL-terminated label and the ULEB128 offset of the child's node. -/
def encodeChild : List UInt8 × Nat → List UInt8
  | (label, off) => label ++ [0] ++ encodeUleb off

/-- One node: its terminal, the child count, and its children's edges. -/
def encodeNode (terminal : Option TrieTerminal) (children : List (List UInt8 × Nat)) :
    List UInt8 :=
  encodeTerminal terminal ++ children.length.toUInt8 :: children.flatMap encodeChild

/-! ### Reading what was written -/

theorem toUInt8_toNat (n : Nat) : n.toUInt8.toNat = n % 256 := rfl

theorem readUleb_low_byte {n : Nat} (rest : List UInt8) (h : n < 128) :
    readUleb (n.toUInt8 :: rest) = (n, 1) := by
  have hb : n.toUInt8.toNat = n := by rw [toUInt8_toNat, Nat.mod_eq_of_lt (by omega)]
  simp [readUleb, hb, h]

theorem readUleb_cons_high {b : UInt8} (rest : List UInt8) (hb : 128 ≤ b.toNat) :
    readUleb (b :: rest) = (b.toNat % 128 + 128 * (readUleb rest).1, (readUleb rest).2 + 1) := by
  simp [readUleb, Nat.not_lt.mpr hb]

theorem readUleb_go (rest : List UInt8) : ∀ fuel n, n < 128 ^ (fuel + 1) →
    readUleb (encodeUleb.go fuel n ++ rest) = (n, (encodeUleb.go fuel n).length)
  | 0, n, h => by
    rw [encodeUleb.go, List.singleton_append, readUleb_low_byte rest (by simpa using h)]
    rfl
  | fuel + 1, n, h => by
    unfold encodeUleb.go
    split
    · rw [List.singleton_append, readUleb_low_byte rest ‹_›]
      rfl
    · have hq : n / 128 < 128 ^ (fuel + 1) := by
        rw [Nat.div_lt_iff_lt_mul (by decide)]
        simpa [Nat.pow_succ] using h
      have hb : (n % 128 + 128).toUInt8.toNat = n % 128 + 128 := by
        rw [toUInt8_toNat, Nat.mod_eq_of_lt (by omega)]
      rw [List.cons_append, readUleb_cons_high _ (by omega), readUleb_go rest fuel (n / 128) hq,
        hb, List.length_cons]
      congr 1
      omega

/-- ULEB128 round trip: `read_uleb` reads back the encoded value and stops right after
it. -/
theorem readUleb_encodeUleb (n : Nat) (rest : List UInt8) :
    readUleb (encodeUleb n ++ rest) = (n, (encodeUleb n).length) :=
  readUleb_go rest n n (Nat.lt_of_lt_of_le (Nat.lt_pow_self (by decide) n)
    (Nat.pow_le_pow_right (by decide) (Nat.le_succ n)))

/-- The encoding of a positive value starts with a nonzero byte, so a terminal's size
tells a terminal from the zero byte of a node without one. -/
theorem encodeUleb_head {n : Nat} (hn : 0 < n) :
    ∃ b tl, encodeUleb n = b :: tl ∧ b.toNat ≠ 0 := by
  obtain ⟨m, rfl⟩ : ∃ m, n = m + 1 := ⟨n - 1, by omega⟩
  unfold encodeUleb encodeUleb.go
  split
  · exact ⟨_, _, rfl, by rw [toUInt8_toNat]; omega⟩
  · exact ⟨_, _, rfl, by rw [toUInt8_toNat]; omega⟩

theorem encodeUleb_length_pos (n : Nat) : 0 < (encodeUleb n).length := by
  cases n with
  | zero => decide
  | succ m =>
    obtain ⟨b, tl, h, -⟩ := encodeUleb_head (Nat.succ_pos m)
    simp [h]

theorem drop_add_of_drop_eq {bytes X Y : List UInt8} {pos : Nat}
    (h : bytes.drop pos = X ++ Y) : bytes.drop (pos + X.length) = Y := by
  rw [← List.drop_drop, h, List.drop_left' rfl]

theorem getD_of_drop_eq {bytes Y : List UInt8} {pos : Nat} {b : UInt8}
    (h : bytes.drop pos = b :: Y) : bytes.getD pos 0 = b := by
  have := congrArg (·[0]?) h
  simp only [List.getElem?_drop, Nat.add_zero, List.getElem?_cons_zero] at this
  simp [List.getD_eq_getElem?_getD, this]

/-- A ULEB128 number written at `pos` is read back, and reading goes on right after it. -/
theorem readUleb_at {bytes Y : List UInt8} {pos n : Nat}
    (h : bytes.drop pos = encodeUleb n ++ Y) :
    readUleb (bytes.drop pos) = (n, (encodeUleb n).length) ∧
      bytes.drop (pos + (encodeUleb n).length) = Y :=
  ⟨by rw [h, readUleb_encodeUleb], drop_add_of_drop_eq h⟩

/-- The header of a node without a terminal or with a regular one: `read_trie` reads its
flags and finds the child count right after it. -/
theorem readNodeHeader_regular {bytes rest : List UInt8} {off : Nat} {term : Option TrieTerminal}
    {children : List (List UInt8 × Nat)} (hreg : ∀ t, term = some t → ∃ f a, t = .regular f a)
    (h : bytes.drop off = encodeNode term children ++ rest) :
    ∃ pos, readNodeHeader bytes off = (term.map (·.flags), pos) ∧
      bytes.drop pos = children.length.toUInt8 :: (children.flatMap encodeChild ++ rest) := by
  rw [encodeNode, List.append_assoc, List.cons_append] at h
  cases term with
  | none =>
    refine ⟨off + 1, ?_, drop_add_of_drop_eq (X := [0]) h⟩
    rw [readNodeHeader, getD_of_drop_eq h]
    rfl
  | some t =>
    obtain ⟨f, a, rfl⟩ := hreg t rfl
    rw [encodeTerminal, TrieTerminal.encode, List.append_assoc, List.append_assoc] at h
    obtain ⟨b, tl, hS, hb⟩ := encodeUleb_head (n := (encodeUleb f ++ encodeUleb a).length)
      (by rw [List.length_append]; have := encodeUleb_length_pos f; omega)
    obtain ⟨hr1, h1⟩ := readUleb_at h
    obtain ⟨hr2, h2⟩ := readUleb_at h1
    obtain ⟨hr3, h3⟩ := readUleb_at h2
    have hne : bytes.getD off 0 ≠ 0 := by
      rw [getD_of_drop_eq (h.trans (by rw [hS]; rfl))]
      exact fun h0 => hb (by rw [h0]; rfl)
    exact ⟨_, by simp only [readNodeHeader, if_pos hne, hr1, hr2, hr3, Option.map_some',
      TrieTerminal.flags], h3⟩

/-- The names below a node's children: each child's names under the prefix extended by
its label, in order. -/
def childrenNames (visit : Nat → List UInt8 → Option TrieNames) (pfx : List UInt8) :
    List (List UInt8 × Nat) → Option TrieNames
  | [] => some []
  | (label, o) :: cs =>
    match visit o (pfx ++ label), childrenNames visit pfx cs with
    | some a, some b => some (a ++ b)
    | _, _ => none

theorem childrenNames_congr {visit visit' : Nat → List UInt8 → Option TrieNames}
    {pfx : List UInt8} : ∀ {children : List (List UInt8 × Nat)},
      (∀ c ∈ children, visit c.2 (pfx ++ c.1) = visit' c.2 (pfx ++ c.1)) →
        childrenNames visit pfx children = childrenNames visit' pfx children
  | [], _ => rfl
  | (label, o) :: cs, h => by
    simp only [childrenNames, h (label, o) (List.mem_cons_self _ _),
      childrenNames_congr fun c hc => h c (List.mem_cons_of_mem _ hc)]

/-- The child loop reads back the edges it finds encoded, labels without NUL. -/
theorem readChildren_encoded {bytes : List UInt8} {visit : Nat → List UInt8 → Option TrieNames}
    {pfx : List UInt8} : ∀ (children : List (List UInt8 × Nat)) (pos : Nat) (rest : List UInt8),
      (∀ c ∈ children, (0 : UInt8) ∉ c.1) →
      bytes.drop pos = children.flatMap encodeChild ++ rest →
      readChildren bytes visit pfx children.length pos = childrenNames visit pfx children
  | [], _, _, _, _ => rfl
  | (label, o) :: cs, pos, rest, hlab, h => by
    rw [List.flatMap_cons, encodeChild, List.append_assoc, List.append_assoc,
      List.append_assoc] at h
    have hs : cString (bytes.drop pos) = label := by
      have hne : ∀ b ∈ label, b ≠ 0 := fun b hb h0 => hlab _ (List.mem_cons_self _ _) (h0 ▸ hb)
      rw [h, cString, List.takeWhile_append_of_pos fun b hb => by simpa using hne b hb]
      simp
    have h1 := drop_add_of_drop_eq (drop_add_of_drop_eq h)
    obtain ⟨hr, h2⟩ := readUleb_at h1
    rw [List.length_cons, readChildren, hs]
    simp only [List.length_singleton] at hr h2 ⊢
    rw [hr, readChildren_encoded cs _ rest (fun c hc => hlab c (List.mem_cons_of_mem _ hc)) h2]
    rfl

/-- An export trie laid out at node offsets: the node at each offset, with its terminal
and its children (label and node offset). -/
abbrev TrieLayout := Nat → Option (Option TrieTerminal × List (List UInt8 × Nat))

/-- The names of the terminals below the node at `off`, under `pfx`, depth first, each
with whether its flags are the weak-definition flag: what the trie holds.  `none` at an
offset without a node, or past `fuel` levels. -/
def layoutNames (L : TrieLayout) : (fuel off : Nat) → (pfx : List UInt8) → Option TrieNames
  | 0, _, _ => none
  | fuel + 1, off, pfx =>
    match L off with
    | none => none
    | some (term, children) =>
      (childrenNames (layoutNames L fuel) pfx children).map fun ns =>
        (match term with
          | none => []
          | some t => [(pfx, t.flags = EXPORT_SYMBOL_FLAGS_WEAK_DEFINITION)]) ++ ns

/-- `bytes` holds the layout `L`: each node's encoding at its offset, each child offset
naming a node, labels without NUL and fewer than 256 children per node. -/
structure LaidOut (bytes : List UInt8) (L : TrieLayout) : Prop where
  encoded : ∀ {off term children}, L off = some (term, children) →
    ∃ rest, bytes.drop off = encodeNode term children ++ rest
  closed : ∀ {off term children}, L off = some (term, children) → ∀ c ∈ children, (L c.2).isSome
  labels : ∀ {off term children}, L off = some (term, children) → ∀ c ∈ children, (0 : UInt8) ∉ c.1
  count : ∀ {off term children}, L off = some (term, children) → children.length < 256

/-- Decoding what was encoded: on a trie laid out at any offsets whose terminals are all
regular, `read_trie` inserts exactly the full names of its terminals, each into
`weak_exports` or `exports` as its flags say. -/
theorem readTrie_laidOut {bytes : List UInt8} {L : TrieLayout} (hL : LaidOut bytes L)
    (hreg : ∀ {off term children} t, L off = some (term, children) → term = some t →
      ∃ f a, t = .regular f a) :
    ∀ fuel off pfx, (L off).isSome → readTrie bytes fuel off pfx = layoutNames L fuel off pfx
  | 0, _, _, _ => rfl
  | fuel + 1, off, pfx, hoff => by
    obtain ⟨⟨term, children⟩, hnode⟩ := Option.isSome_iff_exists.mp hoff
    obtain ⟨rest, henc⟩ := hL.encoded hnode
    obtain ⟨pos, hhdr, hpos⟩ := readNodeHeader_regular (fun t ht => hreg t hnode ht) henc
    have hcount : (bytes.getD pos 0).toNat = children.length := by
      rw [getD_of_drop_eq hpos, toUInt8_toNat, Nat.mod_eq_of_lt (hL.count hnode)]
    have hkids := @readChildren_encoded bytes (readTrie bytes fuel) pfx children
      (pos + 1) rest (hL.labels hnode) (drop_add_of_drop_eq (X := [_]) hpos)
    have hcongr : childrenNames (readTrie bytes fuel) pfx children =
        childrenNames (layoutNames L fuel) pfx children :=
      childrenNames_congr fun c hc => readTrie_laidOut hL hreg fuel c.2 _ (hL.closed hnode c hc)
    simp only [readTrie, hhdr, hcount, hkids, hcongr, layoutNames, hnode]
    cases term <;> rfl

/-- The trie of `_f` and `_fx`, both regular: the root at offset 0, the node of `_f` at
6, that of `_fx` at 13. -/
def twoNameLayout : TrieLayout := fun off =>
  if off = 0 then some (none, [([0x5F, 0x66], 6)])
  else if off = 6 then some (some (.regular 0 0), [([0x78], 13)])
  else if off = 13 then some (some (.regular 0 0), [])
  else none

/-- The bytes of `twoNameLayout`. -/
def twoNameTrie : List UInt8 :=
  encodeNode none [([0x5F, 0x66], 6)] ++ encodeNode (some (.regular 0 0)) [([0x78], 13)] ++
    encodeNode (some (.regular 0 0)) []

theorem twoNameLayout_cases {off : Nat} {term : Option TrieTerminal} {children : List (List UInt8 × Nat)}
    (h : twoNameLayout off = some (term, children)) :
    (off = 0 ∧ term = none ∧ children = [([0x5F, 0x66], 6)]) ∨
      (off = 6 ∧ term = some (.regular 0 0) ∧ children = [([0x78], 13)]) ∨
      (off = 13 ∧ term = some (.regular 0 0) ∧ children = []) := by
  unfold twoNameLayout at h
  split_ifs at h <;> cases h <;> simp only [*, and_self, true_or, or_true]

theorem twoNameTrie_laidOut : LaidOut twoNameTrie twoNameLayout where
  encoded h := by
    obtain ⟨rfl, rfl, rfl⟩ | ⟨rfl, rfl, rfl⟩ | ⟨rfl, rfl, rfl⟩ := twoNameLayout_cases h <;>
      exact ⟨_, rfl⟩
  closed h := by
    obtain ⟨rfl, rfl, rfl⟩ | ⟨rfl, rfl, rfl⟩ | ⟨rfl, rfl, rfl⟩ := twoNameLayout_cases h <;> decide
  labels h := by
    obtain ⟨rfl, rfl, rfl⟩ | ⟨rfl, rfl, rfl⟩ | ⟨rfl, rfl, rfl⟩ := twoNameLayout_cases h <;> decide
  count h := by
    obtain ⟨rfl, rfl, rfl⟩ | ⟨rfl, rfl, rfl⟩ | ⟨rfl, rfl, rfl⟩ := twoNameLayout_cases h <;> decide

theorem readTrie_twoNames :
    readExportTrie twoNameTrie = some [([0x5F, 0x66], false), ([0x5F, 0x66, 0x78], false)] := by
  rw [readExportTrie, readTrie_laidOut twoNameTrie_laidOut (fun t h ht => by
    obtain ⟨-, rfl, -⟩ | ⟨-, rfl, -⟩ | ⟨-, rfl, -⟩ := twoNameLayout_cases h <;> cases ht <;>
      exact ⟨0, 0, rfl⟩) _ 0 [] rfl]
  rfl

/-! ### A terminal `read_trie` misreads -/

/-- The export trie of `_f`, a stub-and-resolver entry (stub 0, resolver 0), and `_fx`,
a regular entry: the root at offset 0, the node of `_f` at 6, that of `_fx` at 14. -/
def resolverTrie : List UInt8 :=
  encodeNode none [([0x5F, 0x66], 6)] ++
  encodeNode (some (.stubAndResolver EXPORT_SYMBOL_FLAGS_STUB_AND_RESOLVER 0 0)) [([0x78], 14)] ++
  encodeNode (some (.regular 0 0)) []

/-- `read_trie` takes the resolver's first byte for the child count of `_f`'s node, so it
finds `_f` and never reaches `_fx`. -/
theorem read_trie_resolver_drops_child :
    (encodeNode none [([0x5F, 0x66], 6)]).length = 6 ∧
    (encodeNode (some (.stubAndResolver EXPORT_SYMBOL_FLAGS_STUB_AND_RESOLVER 0 0))
      [([0x78], 14)]).length = 8 ∧
    readExportTrie resolverTrie = some [([0x5F, 0x66], false)] :=
  ⟨rfl, rfl, rfl⟩

/-! ### A trie `read_trie` never finishes -/

/-- A root with no terminal and one child, labelled with the empty string, at offset 0:
the root itself. -/
def selfLoopTrie : List UInt8 := encodeNode none [([], 0)]

/-- `read_trie` follows a child offset back to the node it is reading, with no visited set
and no depth bound: whatever the bound on nested calls, the walk of this trie has not
returned (`readTrie` has no other way to give `none`). -/
theorem read_trie_self_loop_unbounded : ∀ fuel, readTrie selfLoopTrie fuel 0 [] = none
  | 0 => rfl
  | fuel + 1 => by
    -- the root: no terminal, then its one child at offset 0 under the same prefix
    show Option.map _ (match readTrie selfLoopTrie fuel 0 [], some [] with
      | some a, some b => some (a ++ b) | _, _ => none) = none
    rw [read_trie_self_loop_unbounded fuel]
    rfl

end SoldMacho
