import Creeks.Mm.State

/-!
# Executable files

The header fields of `elf.h` and the decision `load_elf` takes on a file. A file is the memory seen
from the address `ext2_read_file` returned; nothing in `load_elf` looks at the file's length.
-/

namespace Creeks
open Lib

abbrev PT_LOAD : Nat := 1

/-- The little-endian half word stored at `a`. -/
def load16 (m : Mem) (a : Nat) : Nat := (m a).toNat + 256 * (m (a + 1)).toNat

section Ehdr

variable (file : Mem)

/-- `hdr->e_entry` -/
def eEntry : Nat := load32 file 24

/-- `hdr->e_phoff` -/
def ePhoff : Nat := load32 file 28

/-- `hdr->e_phnum` -/
def ePhnum : Nat := load16 file 44

end Ehdr

/-- `Elf32_Phdr` -/
structure Phdr where
  pType : Nat
  pOffset : Nat
  pVaddr : Nat
  pFilesz : Nat
  pMemsz : Nat
  pFlags : Nat
deriving DecidableEq, Repr

/-- The program header `p_entry` points at, `pe` entries after `file + e_phoff`. -/
def phdr (file : Mem) (pe : Nat) : Phdr where
  pType := load32 file (ePhoff file + 32 * pe)
  pOffset := load32 file (ePhoff file + 32 * pe + 4)
  pVaddr := load32 file (ePhoff file + 32 * pe + 8)
  pFilesz := load32 file (ePhoff file + 32 * pe + 16)
  pMemsz := load32 file (ePhoff file + 32 * pe + 20)
  pFlags := load32 file (ePhoff file + 32 * pe + 24)

/-- `is_elf` -/
def isElf (file : Mem) : Bool :=
  file 0 == 0x7f && file 1 == 0x45 && file 2 == 0x4c && file 3 == 0x46

/-- The two range checks of `load_elf` on a program header, the sum taken in 32 bits. -/
def Phdr.refused (ph : Phdr) : Bool :=
  ph.pType == PT_LOAD &&
    (ph.pVaddr < USER_OFFSET || wrap (ph.pVaddr + ph.pMemsz) > USER_STACK)

/-- The value `load_elf` returns: 0 for a file that is not in ELF format or has a segment outside
user space, else the entry point. -/
def loadElf (file : Mem) : Nat :=
  if !isElf file then 0
  else if (List.range (ePhnum file)).any fun pe => (phdr file pe).refused then 0
  else eEntry file

/-- A file `load_elf` accepts: the magic number, an entry point and no program header. -/
def bareElf : Mem
  | 0 => 0x7f
  | 1 => 0x45
  | 2 => 0x4c
  | 3 => 0x46
  | 27 => 0x40
  | _ => 0

example : loadElf bareElf = 0x40000000 := by decide

end Creeks
