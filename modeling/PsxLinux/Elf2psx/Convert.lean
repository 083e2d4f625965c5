import PsxLinux.Lib.File

/-!
# `elf2psx`: from an ELF file to a PS-X EXE

The tool's `main`, cut at its comments: arguments, ELF header checks, program headers, the
scan for the range of the image, the checks on that range, the header and the zero fill of
the output, and the copy of the `PT_LOAD` segments.

All the arithmetic on addresses is 32-bit, as in the source. What the surrounding system decides
(which files can be opened, which `fwrite` succeeds, how an ELF file reads that is the output too,
what the `fclose` writes whose result is ignored) is a parameter. Allocation and seeking always
succeed.
-/

namespace PsxLinux.Elf2psx

open Lib

/-! ## Headers -/

/-- `region_t` -/
inductive Region where
  | ntscJapan
  | ntscNorthAmerica
  | pal
deriving DecidableEq

/-- `elf_header_t`: the fields that are used. -/
structure ElfHeader where
  magic : List UInt8
  bitness : UInt8
  endianness : UInt8
  elfType : UInt16
  cpuType : UInt16
  entryPoint : UInt32
  phdrOffs : UInt32
  phdrEntSize : UInt16
  phdrEntCount : UInt16

/-- `elf_program_header_t`: the fields that are used. -/
structure Phdr where
  type : UInt32
  offset : UInt32
  vaddr : UInt32
  filesz : UInt32
deriving DecidableEq

/-- `sizeof (elf_header_t)` -/
def ehdrSize : ℕ := 52

/-- `sizeof (elf_program_header_t)` -/
def phdrSize : ℕ := 32

def ptLoad : UInt32 := 1

def readEhdr (elf : File) : ElfHeader where
  magic := [elf.byte 0, elf.byte 1, elf.byte 2, elf.byte 3]
  bitness := elf.byte 4
  endianness := elf.byte 5
  elfType := elf.u16 16
  cpuType := elf.u16 18
  entryPoint := elf.u32 24
  phdrOffs := elf.u32 28
  phdrEntSize := elf.u16 42
  phdrEntCount := elf.u16 44

def readPhdr (elf : File) (off : ℕ) : Phdr where
  type := elf.u32 off
  offset := elf.u32 (off + 4)
  vaddr := elf.u32 (off + 8)
  filesz := elf.u32 (off + 16)

/-- `phdrs`, as the `fread` fills it. -/
def phdrs (elf : File) : List Phdr :=
  (List.range (readEhdr elf).phdrEntCount.toNat).map fun i =>
    readPhdr elf ((readEhdr elf).phdrOffs.toNat + i * phdrSize)

/-- `psx_header_t`: the fields that are not always zero, with `ascii_marker`. -/
structure PsxHeader where
  pc : UInt32
  ftext : UInt32
  filesz : UInt32
  spBase : UInt32
  asciiMarker : String

/-- Byte `i` of a text, zero past its end (`memcpy` and `strncpy` into zeroed memory). -/
def asciiByte (s : String) (i : ℕ) : UInt8 :=
  (s.toList.map fun c => UInt8.ofNat c.toNat).getD i 0

/-- Byte `i` of the header in memory. -/
def PsxHeader.byte (h : PsxHeader) (i : ℕ) : UInt8 :=
  if i < 0x08 then asciiByte "PS-X EXE" i
  else if i < 0x10 then 0
  else if i < 0x14 then le32 h.pc (i - 0x10)
  else if i < 0x18 then 0
  else if i < 0x1c then le32 h.ftext (i - 0x18)
  else if i < 0x20 then le32 h.filesz (i - 0x1c)
  else if i < 0x30 then 0
  else if i < 0x34 then le32 h.spBase (i - 0x30)
  else if i < 0x4c then 0
  else asciiByte h.asciiMarker (i - 0x4c)

/-! ## Failures -/

/-- The places where `main` gives up. -/
inductive Failure where
  | notEnoughArguments
  | invalidRegionFlag
  | fopenElf
  | freadElf
  | invalidElfMagic
  | not32Bit
  | notLittleEndian
  | unusualPhdrEntrySize
  | notMips
  | notExecutable
  | freadPhdrs
  | noPtLoad
  | endsTooLate
  | notAligned
  | fopenPsx
  | fwriteHead
  | fwriteZero
  | outOfRange
  | freadCopy
  | fwriteCopy
deriving DecidableEq

/-- What `main` prints to `stderr` there (for a library call, the text it hands to
`perror`). -/
def Failure.message : Failure → String
  | notEnoughArguments => "not enough arguments\n"
  | invalidRegionFlag => "invalid region flag\n"
  | fopenElf => "fopen(elf)"
  | freadElf => "fread(elf)"
  | invalidElfMagic => "invalid ELF magic\n"
  | not32Bit => "not a 32-bit ELF\n"
  | notLittleEndian => "not a little-endian ELF\n"
  | unusualPhdrEntrySize => "unusual PHdr entry size\n"
  | notMips => "not a MIPS ELF\n"
  | notExecutable => "not an executable ELF\n"
  | freadPhdrs => "fread(elf phdrs)"
  | noPtLoad => "couldn't find any PT_LOAD segments!\n"
  | endsTooLate => "data segment ends too late\n"
  | notAligned => "text segment start not 2KB-aligned\n"
  | fopenPsx => "fopen(psx)"
  | fwriteHead => "fwrite(psx head)"
  | fwriteZero => "fwrite(psx zero)"
  | outOfRange => "PT_LOAD destination out of range\n"
  | freadCopy => "fread(psx copy)"
  | fwriteCopy => "fwrite(psx copy)"

/-- How `main` returns 1: what it prints, and the output file if it was opened. -/
structure Stop where
  message : String
  psx : Option File

/-- Give up with the output file as it is. -/
def fail {α : Type} (f : Failure) (psx : Option File) : Except Stop α :=
  .error ⟨f.message, psx⟩

/-- What the system lets the tool do: the files that can be opened for reading, the names
that can be created, and whether the `n`-th `fwrite` succeeds. Two names can stand for one file,
and `overwritten n` is then how the ELF file reads before the `n`-th `fwrite`. `close` is what the
last flush makes of the output. -/
structure Env where
  files : String → Option File
  creates : String → Bool
  writes : ℕ → Bool
  sameFile : String → String → Bool
  overwritten : ℕ → File
  close : File → File

/-! ## Reading the ELF -/

/-- Read arguments, read region flag. -/
def readArguments (argv : List String) : Except Stop (Region × String × String) :=
  match argv with
  | _ :: flag :: elf :: psx :: _ =>
    if flag = "-j" then .ok (.ntscJapan, elf, psx)
    else if flag = "-n" then .ok (.ntscNorthAmerica, elf, psx)
    else if flag = "-p" then .ok (.pal, elf, psx)
    else fail .invalidRegionFlag none
  | _ => fail .notEnoughArguments none

/-- Read the ELF header and check it, then load the program headers. An empty table is
refused too: `fread` of an object of size 0 returns 0. -/
def checkElf (elf : File) : Except Stop Unit :=
  let ehdr := readEhdr elf
  if elf.size < ehdrSize then fail .freadElf none
  else if ehdr.magic ≠ [0x7f, 0x45, 0x4c, 0x46] then fail .invalidElfMagic none
  else if ehdr.bitness ≠ 1 then fail .not32Bit none
  else if ehdr.endianness ≠ 1 then fail .notLittleEndian none
  else if ehdr.phdrEntSize ≠ 0x20 then fail .unusualPhdrEntrySize none
  else if ehdr.cpuType ≠ 8 then fail .notMips none
  else if ehdr.elfType ≠ 2 then fail .notExecutable none
  else if ehdr.phdrEntCount = 0 ∨
      elf.size < ehdr.phdrOffs.toNat + phdrSize * ehdr.phdrEntCount.toNat then
    fail .freadPhdrs none
  else .ok ()

/-! ## The range of the image -/

/-- `target_ftext` and `target_edata`. -/
structure Range where
  ftext : UInt32
  edata : UInt32

/-- One turn of the loop that finds start and end of the program. -/
def Range.extend (r : Range) (phdr : Phdr) : Range :=
  if phdr.type = ptLoad ∧ 0 < phdr.filesz then
    { ftext := if phdr.vaddr < r.ftext then phdr.vaddr else r.ftext
      edata := if r.edata < phdr.vaddr + phdr.filesz then phdr.vaddr + phdr.filesz else r.edata }
  else r

def findRange (hdrs : List Phdr) : Range :=
  hdrs.foldl Range.extend { ftext := 0xffffffff, edata := 0 }

/-- Sanity-check the range. -/
def checkRange (r : Range) : Except Stop Unit :=
  if r.edata < r.ftext then fail .noPtLoad none
  else if 0x80200000 < r.edata then fail .endsTooLate none
  else if r.ftext &&& 0x7ff ≠ 0 then fail .notAligned none
  else .ok ()

/-- `(target_edata + 0x7FF) & ~0x7FF` -/
def Range.aedata (r : Range) : UInt32 := (r.edata + 0x7ff) &&& ~~~ 0x7ff

/-! ## Writing the EXE -/

def Region.marker : Region → String
  | ntscJapan => "Sony Computer Entertainment Inc. for Japan area"
  | ntscNorthAmerica => "Sony Computer Entertainment Inc. for North America area"
  | pal => "Sony Computer Entertainment Inc. for Europe area"

/-- Prepare header. -/
def psxHeader (region : Region) (ehdr : ElfHeader) (r : Range) : PsxHeader where
  pc := ehdr.entryPoint
  ftext := r.ftext
  filesz := r.aedata - r.ftext
  spBase := 0x801ffff0
  asciiMarker := region.marker

/-- `for (i = 0; i < psxh.filesz; i += 0x800)`, with `i` compared as unsigned and the stream
at `pos`; `n` counts the calls of `fwrite`. The loop that ran out of `fuel` would be one that
does not end. -/
def zeroFill (env : Env) (filesz : UInt32) :
    (fuel : ℕ) → (i : UInt32) → (n pos : ℕ) → File → Except Stop (ℕ × File)
  | 0, _, _, _, psx => .error ⟨"", psx⟩
  | fuel + 1, i, n, pos, psx =>
    if i < filesz then
      if env.writes n then
        zeroFill env filesz fuel (i + 0x800) (n + 1) (pos + 0x800)
          (psx.write ⟨pos, 0x800, fun _ => 0⟩)
      else fail .fwriteZero psx
    else .ok (n, psx)

/-- The ELF file before the `n`-th `fwrite`: opening the output truncates it if it is the same. -/
def Env.elfAt (env : Env) (fnameElf fnamePsx : String) (elf : File) (n : ℕ) : File :=
  if env.sameFile fnameElf fnamePsx then env.overwritten n else elf

/-- Apply `PT_LOAD` sections. -/
def applyLoads (env : Env) (elf : ℕ → File) (ftext filesz : UInt32) :
    (hdrs : List Phdr) → (n : ℕ) → File → Except Stop File
  | [], _, psx => .ok psx
  | phdr :: hdrs, n, psx =>
    if phdr.type ≠ ptLoad then applyLoads env elf ftext filesz hdrs n psx
    else if phdr.filesz = 0 then applyLoads env elf ftext filesz hdrs n psx
    else
      let addr := phdr.vaddr - ftext
      if filesz ≤ addr ∨ filesz < addr + phdr.filesz then fail .outOfRange psx
      else if (elf n).size < phdr.offset.toNat + phdr.filesz.toNat then fail .freadCopy psx
      else if env.writes n then
        applyLoads env elf ftext filesz hdrs (n + 1) (psx.write
          ⟨(addr + 0x800).toNat, phdr.filesz.toNat, fun i => (elf n).byte (phdr.offset.toNat + i)⟩)
      else fail .fwriteCopy psx

/-- `main`: the output file where it returns 0. -/
def main (env : Env) (argv : List String) : Except Stop File := do
  let (region, fnameElf, fnamePsx) ← readArguments argv
  match env.files fnameElf with
  | none => fail .fopenElf none
  | some elf =>
    checkElf elf
    let range := findRange (phdrs elf)
    checkRange range
    if env.creates fnamePsx then
      let psxh := psxHeader region (readEhdr elf) range
      if env.writes 0 then
        let psx := File.empty.write ⟨0, 0x800, psxh.byte⟩
        let (n, psx) ← zeroFill env psxh.filesz (psxh.filesz.toNat + 1) 0 1 0x800 psx
        let psx ←
          applyLoads env (env.elfAt fnameElf fnamePsx elf) psxh.ftext psxh.filesz (phdrs elf) n psx
        return env.close psx
      else fail .fwriteHead (some File.empty)
    else fail .fopenPsx none

end PsxLinux.Elf2psx
