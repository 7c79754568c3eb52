import OSExt.Lib.Call
import OSExt.Elf.Loading

/-!
# The module registry

`modules.c`: a module is loaded from its file, started and put in front of a linked
list; it is looked up by name when it is installed again or removed.

What is asked of the outside is a parameter. `kmalloc` gives any object or NULL, and its
caches may take pages before it answers; the file system knows paths and their contents;
`module_entry` gives the function to call at the end or NULL. Both leave the registry
alone. Records and names are kept by their address, apart from the bytes that loading
writes.
-/

namespace OSExt.Modules

open Lib Memory Libk Elf

/-! ## The outside -/

/-- What a cache of `kmalloc` asks the page allocator for. -/
inductive Request where
  | page
  /-- `more + 1` pages -/
  | run (more alignment : Nat)

namespace Request

/-- How many pages. -/
def size : Request → Nat
  | .page => 1
  | .run more _ => more + 1

def serve (pages : Pageblocks) : Request → Option Nat × Pageblocks
  | .page => usePage pages
  | .run more alignment => useConsecutivePages (more + 1) alignment pages

end Request

/-- The requests one after the other: the runs that were given, latest first. -/
def serveAll : List Request → Pageblocks → List (Nat × Nat) × Pageblocks
  | [], pages => ([], pages)
  | r :: requests, pages =>
    let served := r.serve pages
    let rest := serveAll requests served.2
    (rest.1 ++ (served.1.map (·, r.size)).toList, rest.2)

/-- An answer of `kmalloc`, 0 for NULL, and what its caches ask for before. -/
structure Kmalloc where
  addr : Nat
  requests : List Request

/-- The answers that a call of `module_install` gets. -/
structure Answers where
  /-- for `path` -/
  path : Kmalloc
  /-- `nuc_stat`: the size of a file -/
  stat : List UInt8 → Option Nat
  /-- `nuc_fopen` -/
  fopen : List UInt8 → Nat
  /-- what the file has, and what its header is read over -/
  file : List UInt8
  buffer : Bytes
  /-- for the `elf_desc`, the module's record and the copy of its name -/
  desc : Kmalloc
  newmod : Kmalloc
  nameCopy : Kmalloc
  /-- what `module_entry` returns -/
  moduleEnd : Nat

/-! ## State -/

/-- `struct module` -/
structure Module where
  name : Nat
  moduleEnd : Nat
  start : Nat
  pages : Nat
  next : Nat

structure System where
  /-- `modules` -/
  modules : Nat
  /-- the records, by address -/
  module : Nat → Module
  /-- the copies of names, by address -/
  string : Nat → CString
  /-- the objects from `kmalloc` that have not been freed -/
  live : List Nat
  /-- the open files -/
  files : List Nat
  machine : Machine
  /-- ghost: the runs that the caches of `kmalloc` have taken, latest first -/
  slabRuns : List (Nat × Nat)

/-- Why a call does not come to its end. -/
inductive Stop where
  /-- it returns early, with nothing installed -/
  | failed
  /-- NULL is written through -/
  | nullAccess
  | outOfFuel
deriving DecidableEq

namespace System

def setPages (s : System) (pages : Pageblocks) : System :=
  { s with machine := { s.machine with pages := pages } }

/-- `kmalloc` -/
def kmalloc (a : Kmalloc) (s : System) : System :=
  let served := serveAll a.requests s.machine.pages
  { s.setPages served.2 with
    live := if a.addr = 0 then s.live else a.addr :: s.live
    slabRuns := served.1 ++ s.slabRuns }

/-- `kfree` and `kfree_hint` -/
def kfree (obj : Nat) (s : System) : System := { s with live := s.live.erase obj }

def fopen (f : Nat) (s : System) : System := { s with files := f :: s.files }

def fclose (f : Nat) (s : System) : System := { s with files := s.files.erase f }

def freePages (start pages : Nat) (s : System) : System :=
  s.setPages (freeConsecutivePages start pages s.machine.pages)

def setMachine (m : Machine) (s : System) : System := { s with machine := m }

def setModule (a : Nat) (m : Module) (s : System) : System :=
  { s with module := Function.update s.module a m }

def setString (a : Nat) (c : CString) (s : System) : System :=
  { s with string := Function.update s.string a c }

/-- `mod->next = next` -/
def setNext (a next : Nat) (s : System) : System :=
  s.setModule a { s.module a with next := next }

def setModules (a : Nat) (s : System) : System := { s with modules := a }

/-- The name of the module at an address. -/
def name (s : System) (a : Nat) : CString := s.string (s.module a).name

/-- `elf_destroy` -/
def elfDestroy (desc : Nat) (elf : ElfDesc) (s : System) : System :=
  let s := if elf.start ≠ 0 then s.freePages elf.start elf.pages else s
  let s := if elf.image ≠ 0 then s.freePages elf.image elf.imagePages else s
  s.kfree desc

/-- `elf_destroy_without_image` -/
def elfDestroyWithoutImage (desc : Nat) (elf : ElfDesc) (s : System) : System :=
  let s := if elf.start ≠ 0 then s.freePages elf.start elf.pages else s
  s.kfree desc

/-- The module is taken out of the list, for the one before it. -/
def unlink (mod modprev : Nat) (s : System) : System :=
  if modprev = 0 then s.setModules (s.module mod).next
  else s.setNext modprev (s.module mod).next

/-- The module is put in front of the list. -/
def link (newmod : Nat) (s : System) : System :=
  if s.modules = 0 then s.setModules newmod
  else (s.setNext newmod s.modules).setModules newmod

end System

/-! ## The functions -/

/--
The loops of `module_install` and `module_uninstall` from `mod` on: the first module with
the name, 0 for none, and the one before it.
-/
def findModule (s : System) (name : CString) : Nat → Nat → Nat → Option (Nat × Nat)
  | 0, _, _ => none
  | fuel + 1, mod, modprev =>
    if mod = 0 then some (0, modprev)
    else if kStreq name (s.name mod) 100 then some (mod, modprev)
    else findModule s name fuel (s.module mod).next mod

/-- `module_uninstall`; `module_end` leaves this state alone. -/
def moduleUninstall (fuel : Nat) (name : CString) : Call System Stop Unit := do
  let found ← gets fun s => findModule s name fuel s.modules 0
  match found with
  | none => stop .outOfFuel
  | some (mod, modprev) =>
    if mod = 0 then pure ()
    else do
      update fun s => s.freePages (s.module mod).start (s.module mod).pages
      update (System.unlink mod modprev)
      update fun s => s.kfree (s.module mod).name
      update (System.kfree mod)

/-- `modules_path` and the extension -/
def modulesPath : List UInt8 := "/documents/modules/".toList.map Char.toUInt8
def extension : List UInt8 := ".elf.tns".toList.map Char.toUInt8

/-- The text of `path`. -/
def pathText (name : CString) : List UInt8 :=
  modulesPath ++ (List.range (kStrlen name 100)).map name ++ extension

/-- `elf_read_header`: the first 52 bytes of a file are read into a buffer. -/
def elfReadHeader (file : List UInt8) (buffer : Bytes) : ElfHeader :=
  elfReadHeaderMem (fun x => if x < (file.take 52).length then file.getD x 0 else buffer x) 0

/-- `module_install` up to the test of the header: the size of the file, and its handle. -/
def openModule (ans : Answers) (name : CString) : Call System Stop (Nat × Nat) := do
  update (System.kmalloc ans.path)
  -- `k_memset(path,'\0',pathlen)` comes before any test
  if ans.path.addr = 0 then stop .nullAccess
  else
    match ans.stat (pathText name) with
    | none => do
      update (System.kfree ans.path.addr)
      stop .failed
    | some size =>
      let f := ans.fopen (pathText name)
      if f = 0 then do
        update (System.kfree ans.path.addr)
        stop .failed
      else do
        update (System.fopen f)
        update (System.kfree ans.path.addr)
        if !elfCheckHeader (elfReadHeader ans.file ans.buffer) then do
          update (System.fclose f)
          stop .failed
        else pure (size, f)

/-- Up to the entry point: the file in memory, and its image. -/
def loadModule (ans : Answers) (size f : Nat) : Call System Stop ElfDesc := do
  update (System.kmalloc ans.desc)
  let loaded ← gets fun s => elfLoadFile ans.desc.addr size ans.file s.machine
  update (System.setMachine loaded.2)
  match loaded.1 with
  | none => do
    -- `elf_load_file` frees the descriptor that it has no pages for
    update fun s => if ans.desc.addr = 0 then s else s.kfree ans.desc.addr
    update (System.fclose f)
    stop .failed
  | some elf => do
    update (System.fclose f)
    let allocated ← gets fun s => elfAllocImage elf s.machine
    update (System.setMachine allocated.2)
    if allocated.1.image = 0 then do
      update (System.elfDestroy ans.desc.addr allocated.1)
      stop .failed
    else do
      update fun s => s.setMachine (elfFixGot allocated.1 s.machine)
      update fun s => s.setMachine (elfAssembleImage allocated.1 s.machine)
      let entry ← gets fun s => elfEntry allocated.1 s.machine
      if entry = 0 then do
        update (System.elfDestroy ans.desc.addr allocated.1)
        stop .failed
      else pure allocated.1

/-- The copy of a name: as many characters as are counted, and a terminator. -/
def copyOfName (name : CString) : CString := fun i => if i < kStrlen name 100 then name i else 0

/-- The record of a module with an image, not linked yet. -/
def newRecord (ans : Answers) (elf : ElfDesc) : Module where
  name := ans.nameCopy.addr
  moduleEnd := ans.moduleEnd
  start := elf.image
  pages := elf.imagePages
  next := 0

/-- The rest of `module_install`. -/
def registerModule (ans : Answers) (name : CString) (elf : ElfDesc) : Call System Stop Unit := do
  update (System.kmalloc ans.newmod)
  if ans.newmod.addr = 0 then do
    update (System.elfDestroy ans.desc.addr elf)
    stop .failed
  else do
    update (System.kmalloc ans.nameCopy)
    if ans.nameCopy.addr = 0 then do
      update (System.elfDestroy ans.desc.addr elf)
      stop .failed
    else do
      update (System.setString ans.nameCopy.addr (copyOfName name))
      update (System.setModule ans.newmod.addr (newRecord ans elf))
      if ans.moduleEnd = 0 then do
        update (System.kfree ans.newmod.addr)
        update (System.kfree ans.nameCopy.addr)
        update (System.elfDestroy ans.desc.addr elf)
        stop .failed
      else do
        update (System.link ans.newmod.addr)
        update (System.elfDestroyWithoutImage ans.desc.addr elf)

/-- `module_install` -/
def moduleInstall (fuel : Nat) (name : CString) (ans : Answers) : Call System Stop Unit := do
  let found ← gets fun s => findModule s name fuel s.modules 0
  match found with
  | none => stop .outOfFuel
  | some (mod, _) =>
    if mod ≠ 0 then stop .failed
    else do
      let (size, f) ← openModule ans name
      let elf ← loadModule ans size f
      registerModule ans name elf

end OSExt.Modules
