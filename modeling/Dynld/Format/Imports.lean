import Dynld.Format.Structures
import Dynld.Fixups

/-!
# Tables of imports

What a bind fixup asks for is an entry of a table: the ordinal of a library and the
offset of a name in a pool of NUL-terminated names. Some references are to a place
near the symbol, so two of the three formats of the table keep an addend too.

* `DYLD_CHAINED_IMPORT`: one packed word;
* `DYLD_CHAINED_IMPORT_ADDEND`: the same word, and a signed 32-bit addend;
* `DYLD_CHAINED_IMPORT_ADDEND64`: 16 bytes with a 64-bit addend.

The bindings do not settle where the fields of a wide entry are: they declare a C
structure, which is padded, and derive a reader that knows of no padding. Static
linkers write a third layout, with a name offset of its own. All three are here.
-/

namespace Dynld

open Bytes

/-- An import, with its name as an offset in the pool. -/
structure ChainedImport where
  libOrdinal : Nat
  weakImport : Bool
  nameOffset : Nat
  addend : Int
  deriving DecidableEq, Repr

/-- The `w` low bits of a number in two's complement. -/
def wrap (w : Nat) (a : Int) : Nat := (a % (2 ^ w : Nat)).toNat

theorem wrap_lt (w : Nat) (a : Int) : wrap w a < 2 ^ w := by
  have hpos : (0 : Int) < (2 ^ w : Nat) := by exact_mod_cast Nat.two_pow_pos w
  have h0 := Int.emod_nonneg a (Int.ne_of_gt hpos)
  have h1 := Int.emod_lt_of_pos a hpos
  unfold wrap
  omega

/-- Where the fields of a wide entry are. -/
inductive Addend64Layout where
  /-- One after another, as they are read. -/
  | packed
  /-- Like a C structure: the addend is aligned. -/
  | aligned
  /-- A wider ordinal, and the name offset in a word of its own. -/
  | wide
  deriving DecidableEq, Repr

inductive ImportFormat where
  | plain
  | addend
  | addend64 (layout : Addend64Layout)
  deriving DecidableEq, Repr

namespace ImportFormat

def variant : ImportFormat → DyldChainedImportFormatVariants
  | plain => .dyldChainedImport
  | addend => .dyldChainedImportAddend
  | addend64 _ => .dyldChainedImportAddend64

def entrySize : ImportFormat → Nat
  | plain => 4
  | addend => 8
  | addend64 _ => 16

end ImportFormat

namespace ChainedImport

/-- Ordinal, weak flag and name offset in one word. -/
def packedWord (i : ChainedImport) : Nat :=
  i.libOrdinal + i.weakImport.toNat * 2 ^ 8 + i.nameOffset * 2 ^ 9

/-- Every field is within the narrowest of its widths. -/
structure Fits (i : ChainedImport) : Prop where
  libOrdinal_lt : i.libOrdinal < 2 ^ 8
  nameOffset_lt : i.nameOffset < 2 ^ 23

/-- The entry of an import. -/
def fields (i : ChainedImport) : ImportFormat → List (Nat × Nat)
  | .plain => [(4, i.packedWord)]
  | .addend => [(4, i.packedWord), (4, wrap 32 i.addend)]
  | .addend64 .packed => [(4, i.packedWord), (8, wrap 64 i.addend), (4, 0)]
  | .addend64 .aligned => [(4, i.packedWord), (4, 0), (8, wrap 64 i.addend)]
  | .addend64 .wide =>
      [(4, i.libOrdinal + i.weakImport.toNat * 2 ^ 16), (4, i.nameOffset), (8, wrap 64 i.addend)]

end ChainedImport

structure ImportTable where
  imports : List ChainedImport
  /-- The names, each with its NUL. -/
  pool : List UInt8
  deriving DecidableEq, Repr

namespace ImportTable

/-- The name of an import: what stands in the pool from its offset up to a NUL. -/
def NameOf (t : ImportTable) (i : ChainedImport) (name : Str) : Prop :=
  untilNul (t.pool.drop i.nameOffset) = some name.bytes

structure WellFormed (t : ImportTable) : Prop where
  /-- A chain word can number no more. -/
  length_le : t.imports.length ≤ 2 ^ 24
  fits : ∀ i ∈ t.imports, i.Fits

end ImportTable

/-- The table sits at `imports` in this format, and its pool at `symbols`. -/
structure ImportTableAt (c : Container) (format : ImportFormat) (imports symbols : Nat)
    (t : ImportTable) : Prop where
  entry : ∀ k i, t.imports[k]? = some i →
    At c.data (imports + k * format.entrySize) (encodeFields c.endian (i.fields format))
  pool : At c.data symbols t.pool

end Dynld
