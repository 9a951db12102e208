/-
VmSim.Address — the decomposition of a 64-bit virtual address
(`src/address.c`).

Addresses are natural numbers; the functions below are the C ones on
every value below `2 ^ 64`. The page number keeps all bits from 12 up,
while the four level indices together read bits 12 to 47 only.
`pageKey` names those 36 bits: two addresses take the same path through
the trie exactly when the keys of their page numbers agree
(`levelIndices_eq`, `keyPath_eq_iff`).
-/
import Mathlib.Data.Nat.Bitwise

namespace VmSim

abbrev pageOffsetBits : Nat := 12

/-- `1 << PAGE_OFFSET_BITS` -/
abbrev pageSize : Nat := 4096

abbrev pageTableLevels : Nat := 4

abbrev pageTableIndexBits : Nat := 9

/-- `1 << PAGE_TABLE_INDEX_BITS` -/
abbrev pageTableEntries : Nat := 512

/-- One more than `UINT64_MAX`. -/
abbrev wordSize : Nat := 2 ^ 64

def addressPageNumber (address : Nat) : Nat := address >>> pageOffsetBits

def addressOffset (address : Nat) : Nat := address &&& (pageSize - 1)

/-- The nine bits of the address that index the trie node of a level. -/
def addressLevelIndex (address level : Nat) : Fin pageTableEntries :=
  if level < pageTableLevels then
    Fin.ofNat pageTableEntries
      ((address >>> (pageOffsetBits + pageTableIndexBits * (pageTableLevels - 1 - level)))
        &&& (pageTableEntries - 1))
  else 0

/-- `page << PAGE_OFFSET_BITS` on 64-bit words. -/
def pageAddress (page : Nat) : Nat := (page <<< pageOffsetBits) % wordSize

/-! ## Paths through the trie -/

/-- The 36 bits of a page number that the trie looks at. -/
def pageKey (page : Nat) : Nat := page % 2 ^ 36

/-- The four slots that a page number selects, root first. -/
def keyPath (page : Nat) : List (Fin pageTableEntries) :=
  [Fin.ofNat _ (page >>> 27), Fin.ofNat _ (page >>> 18), Fin.ofNat _ (page >>> 9),
    Fin.ofNat _ page]

theorem addressLevelIndex_eq {address level : Nat} (h : level < pageTableLevels) :
    addressLevelIndex address level =
      Fin.ofNat _ (addressPageNumber address >>> (9 * (3 - level))) := by
  apply Fin.ext
  have hmask : ∀ n, n &&& (pageTableEntries - 1) = n % 512 := fun n =>
    Nat.and_two_pow_sub_one_eq_mod n 9
  simp only [addressLevelIndex, if_pos h, addressPageNumber, Nat.shiftRight_add, Fin.ofNat, hmask,
    Nat.mod_mod]
  rfl

theorem levelIndices_eq (address : Nat) :
    [addressLevelIndex address 0, addressLevelIndex address 1, addressLevelIndex address 2,
      addressLevelIndex address 3] = keyPath (addressPageNumber address) := by
  rw [addressLevelIndex_eq (by decide), addressLevelIndex_eq (by decide),
    addressLevelIndex_eq (by decide), addressLevelIndex_eq (by decide)]
  rfl

theorem keyPath_eq_iff {page page' : Nat} :
    keyPath page = keyPath page' ↔ pageKey page = pageKey page' := by
  simp only [keyPath, pageKey, List.cons.injEq, and_true, Fin.ext_iff, Fin.ofNat,
    Nat.shiftRight_eq_div_pow, pageTableEntries]
  constructor
  · rintro ⟨h0, h1, h2, h3⟩
    omega
  · intro h
    refine ⟨?_, ?_, ?_, ?_⟩ <;> omega

@[simp] theorem pageKey_pageKey (page : Nat) : pageKey (pageKey page) = pageKey page :=
  Nat.mod_mod _ _

theorem pageKey_of_lt {page : Nat} (h : page < 2 ^ 36) : pageKey page = page :=
  Nat.mod_eq_of_lt h

/-- Pages that the trie tells apart: no two of them have one key. -/
def KeysApart (pages : Nat → Prop) : Prop :=
  ∀ u v, pages u → pages v → pageKey u = pageKey v → u = v

/-- Pages with addresses below 2^48. -/
theorem keysApart_lt : KeysApart (· < 2 ^ 36) := by
  intro u v hu hv hk
  rwa [pageKey_of_lt hu, pageKey_of_lt hv] at hk

theorem addressPageNumber_lt {address : Nat} (h : address < wordSize) :
    addressPageNumber address < 2 ^ 52 := by
  simp only [addressPageNumber, pageOffsetBits, Nat.shiftRight_eq_div_pow, wordSize] at h ⊢
  omega

theorem addressPageNumber_lt_key {address : Nat} (h : address < 2 ^ 48) :
    addressPageNumber address < 2 ^ 36 := by
  simp only [addressPageNumber, pageOffsetBits, Nat.shiftRight_eq_div_pow]
  omega

theorem addressPageNumber_pageAddress {page : Nat} (h : page < 2 ^ 52) :
    addressPageNumber (pageAddress page) = page := by
  simp only [addressPageNumber, pageAddress, pageOffsetBits, Nat.shiftRight_eq_div_pow,
    Nat.shiftLeft_eq, wordSize]
  omega

theorem addressOffset_lt (address : Nat) : addressOffset address < pageSize :=
  Nat.lt_of_le_of_lt Nat.and_le_right (by decide)

theorem addressOffset_eq (address : Nat) : addressOffset address = address % pageSize :=
  Nat.and_two_pow_sub_one_eq_mod address 12

/-- The address of a byte leads back to its page and its offset. -/
theorem addressPageNumber_add (page : Nat) {offset : Nat} (h : offset < pageSize) :
    addressPageNumber (page * pageSize + offset) = page := by
  simp only [addressPageNumber, pageOffsetBits, pageSize, Nat.shiftRight_eq_div_pow] at h ⊢
  omega

theorem addressOffset_add (page : Nat) {offset : Nat} (h : offset < pageSize) :
    addressOffset (page * pageSize + offset) = offset := by
  rw [addressOffset_eq]
  simp only [pageSize] at h ⊢
  omega

/-- The page and the offset determine the address. -/
theorem address_eq {a b : Nat} (hpage : addressPageNumber a = addressPageNumber b)
    (hoffset : addressOffset a = addressOffset b) : a = b := by
  rw [addressOffset_eq, addressOffset_eq] at hoffset
  simp only [addressPageNumber, pageOffsetBits, pageSize, Nat.shiftRight_eq_div_pow] at hpage hoffset
  omega

end VmSim
