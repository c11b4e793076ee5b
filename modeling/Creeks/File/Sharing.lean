import Creeks.File.OpenCounter
import Creeks.File.Reading
import Creeks.Ext2.Contents

/-!
# Sharing an open file

All descriptors of a file read from one buffer in the kernel heap. `sys_open` reads the file anew into a fresh
buffer, `sys_close` frees the buffer whoever else reads from it, and `sys_exit` when the counter of the file
comes to 0. `file_sharing` says in which runs the buffer of every open file is there and has the contents of
the file: those in which a close or an exit that frees a buffer takes the last descriptor with it.
-/

namespace Creeks
open Lib

/-- The files and the kernel heap with their buffers. -/
structure Shared where
  files : Files
  mm : Mm

/-- The files with a descriptor. -/
def openFiles (s : Files) : Finset Nat := s.cached.toFinset.filter fun f => 0 < entries s f

/-- The chunk of the buffer of a file. -/
def bufferChunk (s : Files) (f : Nat) : Nat × Nat := ((s.file f).mmap, (s.file f).iSize)

/-- The buffers of the open files. -/
def buffers (s : Files) : Multiset (Nat × Nat) := (openFiles s).val.map (bufferChunk s)

/-- The rest of the kernel allocates, writes and frees other chunks than those of `A`. -/
def Keeps (A : Multiset (Nat × Nat)) (m m' : Mm) : Prop :=
  ∀ R, heapLedger.holds m (A + R) →
    ∃ R', heapLedger.holds m' (A + R') ∧ ∀ a ∈ A, payload a m' = payload a m

/-- One turn of the loop of `sys_exit` over the open files: the buffer goes when the counter comes to 0. -/
def dropBuffer (file : Nat → File) (f : Nat) (m : Mm) : Except Stop Mm :=
  if (file f).opened - 1 = 0 then kfree m (file f).mmap else .ok m

/-- The calls of `kfree` in that loop. -/
def dropBuffers : List OpenFile → (Nat → File) → Mm → Except Stop Mm
  | [], _, m => .ok m
  | of :: next, file, m =>
    match of.file with
    | none => .ok m
    | some f => do
      let opened := (file f).opened - 1
      let m ← dropBuffer file f m
      dropBuffers next (Function.update file f
        { file f with opened := opened, mmap := if opened = 0 then 0 else (file f).mmap }) m

section Steps

variable (d : Drive) (hd : Hd) (inodes : Nat → Inode)

/-- What a call does to the buffers: from the files `s` and the heap `m` to `s'` and `m'`. The node of a file
gets the size that is on the disk. -/
def FileOp.Heap (s : Files) (m : Mm) : FileOp → Files → Mm → Prop
  | .node f _, s', m' => (s'.file f).iSize = (inodes f).iSize ∧ m' = m
  | .sysOpen (some f) buf, _, m' => Ext2.ext2ReadFile d hd m (inodes f) = .ok (m', buf)
  | .sysRead _ bufsize, _, m' => bufsize < 4294967296 ∧ m' = m
  | .sysClose fd, _, m' => (¬ OpenFd s.currentFd fd ∧ m' = m) ∨
      ∃ f ptr, s.currentFd[fd]? = some ⟨some f, ptr⟩ ∧ kfree m (s.file f).mmap = .ok m'
  | .sysExit _, _, m' => dropBuffers s.currentFd s.file m = .ok m'
  | _, _, m' => m' = m

/-- One step of the system. Before and after the buffers are used, the call and what else is done in the
kernel may use other chunks. -/
structure ShareStep (s : Shared) (op : FileOp) (s' : Shared) : Prop where
  files : FileStep s.files op s'.files
  heap : ∃ m m', Keeps (buffers s.files) s.mm m ∧ op.Heap d hd inodes s.files m s'.files m' ∧
    Keeps (buffers s'.files) m' s'.mm

/-- A step that frees a buffer with the last descriptor only. -/
def FileOp.Shares (s : Files) : FileOp → Prop
  | .sysClose fd => ∀ f ptr, s.currentFd[fd]? = some ⟨some f, ptr⟩ → entries s f = 1
  | .sysExit _ => ∀ f, 1 ≤ (s.file f).opened → (s.file f).opened ≤ fdCount s.currentFd f →
      entries s f = fdCount s.currentFd f
  | _ => True

def SharingStep (s : Shared) (op : FileOp) (s' : Shared) : Prop :=
  ShareStep d hd inodes s op s' ∧ op.Shares s.files

/-- Byte `o` of a file on the disk. -/
def fileByte (inode : Inode) (o : Nat) : UInt8 :=
  imageByte d hd (blockMap d hd inode (o / hd.blocksize)) (o % hd.blocksize)

/-- The contents of a file on the disk. -/
def fileBytes (inode : Inode) : List UInt8 := (List.range inode.iSize).map (fileByte d hd inode)

/-- The buffer of every open file is a chunk of its own. A read of the running process returns the contents of
the file on the disk at the position of the descriptor, exactly when the sum of position and size fits in
32 bits. -/
structure SharesFiles (s : Shared) : Prop where
  live : ∃ R, heapLedger.holds s.mm (buffers s.files + R)
  reads : ∀ fd f ptr user, ∀ c : ReadCall, s.files.table.current ≠ 0 → OpenAt s.files fd f ptr →
    c.bufsize < 4294967296 →
    ∃ r, readCall s.mm.mem fd ⟨s.files, user⟩ c = .ok r ∧
      (bytesAt r.reader.user c.uBuf r.count = readAt (fileBytes d hd (inodes f)) ptr c.bufsize ↔
        ptr + c.bufsize < 4294967296)

/-- The positions of the descriptors are in their files. -/
def InFiles (l : List OpenFile) : Prop := ∀ f ptr, ⟨some f, ptr⟩ ∈ l → ptr ≤ (inodes f).iSize

/-- What the steps keep. -/
structure Sharing (s : Files) (m : Mm) : Prop where
  seats : Seats s.table
  pointed : ∀ f ∉ s.cached, entries s f = 0
  size : ∀ f ∈ s.cached, (s.file f).iSize = (inodes f).iSize
  ptr : ∀ p ∈ live s.table, InFiles inodes (s.fd p)
  held : ∃ R, heapLedger.holds m (buffers s + R)
  content : ∀ f, 0 < entries s f → ∀ o < (inodes f).iSize,
    m.mem ((s.file f).mmap + o) = fileByte d hd (inodes f) o

end Steps

/-! ## Buffers -/

section Buffers

variable {d : Drive} {hd : Hd} {inodes : Nat → Inode} {s : Shared} {s1 s2 : Files} {f : Nat} {A : Multiset (Nat × Nat)}
  {m m' m'' : Mm}

lemma Keeps.refl (A : Multiset (Nat × Nat)) (m : Mm) : Keeps A m m := fun R h => ⟨R, h, fun _ _ => rfl⟩

/-- A file with a descriptor is in the cache. -/
lemma mem_cached (hp : ∀ f ∉ s1.cached, entries s1 f = 0) (h : 0 < entries s1 f) : f ∈ s1.cached := by
  by_contra hn
  rw [hp f hn] at h
  cases h

lemma mem_openFiles (hp : ∀ f ∉ s1.cached, entries s1 f = 0) : f ∈ openFiles s1 ↔ 0 < entries s1 f := by
  rw [openFiles, Finset.mem_filter, List.mem_toFinset]
  exact ⟨And.right, fun h => ⟨mem_cached hp h, h⟩⟩

/-- A call that changes one file leaves the buffers of the others. -/
lemma buffers_rest (hp : ∀ f ∉ s1.cached, entries s1 f = 0) (hp' : ∀ f ∉ s2.cached, entries s2 f = 0)
    (he : ∀ g, g ≠ f → entries s2 g = entries s1 g) (hsame : ∀ g, g ≠ f → s2.file g = s1.file g) :
    (openFiles s2 \ {f}).val.map (bufferChunk s2) = (openFiles s1 \ {f}).val.map (bufferChunk s1) := by
  have hrest : openFiles s2 \ {f} = openFiles s1 \ {f} := by
    ext g
    rw [Finset.mem_sdiff, Finset.mem_sdiff, mem_openFiles hp', mem_openFiles hp, Finset.mem_singleton]
    refine and_congr_left fun hg => ?_
    rw [he g hg]
  rw [hrest]
  refine Multiset.map_congr rfl fun g hg => ?_
  have hne : g ≠ f := fun h => (Finset.mem_sdiff.1 (Finset.mem_def.2 hg)).2 (Finset.mem_singleton.2 h)
  rw [bufferChunk, bufferChunk, hsame g hne]

/-- The buffer of an open file is among the buffers. -/
lemma bufferChunk_mem (hp : ∀ f ∉ s1.cached, entries s1 f = 0) (h : 0 < entries s1 f) :
    bufferChunk s1 f ∈ buffers s1 :=
  Multiset.mem_map_of_mem _ ((mem_openFiles hp).2 h)

/-- The buffers of two states with the same open files. -/
lemma buffers_congr (hp1 : ∀ f ∉ s1.cached, entries s1 f = 0) (hp2 : ∀ f ∉ s2.cached, entries s2 f = 0)
    (he : ∀ f, entries s2 f = entries s1 f) (hc : ∀ f, 0 < entries s1 f → bufferChunk s2 f = bufferChunk s1 f) :
    buffers s2 = buffers s1 := by
  have hopen : openFiles s2 = openFiles s1 := by
    ext f
    rw [mem_openFiles hp1, mem_openFiles hp2, he]
  rw [buffers, hopen]
  exact Multiset.map_congr rfl fun f hf => hc f ((mem_openFiles hp1).1 hf)

/-- The chunks of some files and those of the others. -/
lemma map_val_split {T U : Finset Nat} (h : T ⊆ U) (chunk : Nat → Nat × Nat) :
    U.val.map chunk = T.val.map chunk + (U \ T).val.map chunk := by
  rw [← Multiset.map_add, Finset.sdiff_val, add_tsub_cancel_of_le (Finset.val_le_iff.2 h)]

/-- Closing a descriptor takes one off the descriptors of its file. -/
lemma fdCount_clear {l : List OpenFile} {fd ptr : Nat} (h : l[fd]? = some ⟨some f, ptr⟩) (g : Nat) :
    fdCount (l.set fd ⟨none, 0⟩) g + (if g = f then 1 else 0) = fdCount l g := by
  induction l generalizing fd with
  | nil => cases h
  | cons a l ih =>
    cases fd with
    | zero =>
      cases h
      simp [fdCount, List.countP_cons, eq_comm]
    | succ fd =>
      have hl := ih h
      rw [fdCount, fdCount] at hl
      rw [List.set_cons_succ, fdCount, List.countP_cons, fdCount, List.countP_cons, ← hl]
      omega

/-- A close takes one off the descriptors of the file of the descriptor. -/
lemma entries_close (seats : Seats s1.table) (h0 : s1.table.current ≠ 0) {fd ptr : Nat} (file : Nat → File)
    (hget : s1.currentFd[fd]? = some ⟨some f, ptr⟩) (g : Nat) :
    entries { s1.setCurrentFd (s1.currentFd.set fd ⟨none, 0⟩) with file := file } g + (if g = f then 1 else 0) =
      entries s1 g := by
  have hcur := Counted.entries_current seats h0 (s1.currentFd.set fd ⟨none, 0⟩) g
  rw [← fdCount_clear hget g] at hcur
  change entries (s1.setCurrentFd (s1.currentFd.set fd ⟨none, 0⟩)) g + _ = _
  omega

/-- The descriptors after `sys_open` are those from before and the new one. -/
lemma mem_allotFd {l : List OpenFile} {of : OpenFile} {fp : Nat} (h : of ∈ (allotFd fp l).1) :
    of ∈ l ∨ of = ⟨some fp, 0⟩ := by
  rw [allotFd_eq, List.mem_append, List.mem_cons] at h
  rcases h with h | h | h
  · exact .inl (List.mem_of_mem_take h)
  · exact .inr h
  · exact .inl (List.mem_of_mem_drop h)

/-- Other descriptors for the running process. -/
lemma inFiles_setCurrentFd {l : List OpenFile} {p : Nat} (h : InFiles inodes (s1.fd p)) (hl : InFiles inodes l) :
    InFiles inodes ((s1.setCurrentFd l).fd p) := by
  rw [Files.setCurrentFd]
  dsimp only
  rcases eq_or_ne p s1.table.current with rfl | hne
  · rwa [Function.update_self]
  · rwa [Function.update_of_ne hne]

/-- A descriptor is replaced. -/
lemma InFiles.set {l : List OpenFile} {of : OpenFile} {fd : Nat} (h : InFiles inodes l)
    (hof : ∀ f, of.file = some f → of.ptr ≤ (inodes f).iSize) : InFiles inodes (l.set fd of) := by
  intro f ptr hmem
  rcases List.mem_or_eq_of_mem_set hmem with hmem | rfl
  · exact h f ptr hmem
  · exact hof f rfl

/-- The counter of a file comes to 0 in the loop of `sys_exit`. -/
def ComesToZero (l : List OpenFile) (file : Nat → File) (f : Nat) : Prop :=
  1 ≤ (file f).opened ∧ (file f).opened ≤ fdCount l f

/-- The other files keep their buffers, and all keep their sizes. -/
lemma dropFds_kept {l : List OpenFile} {file file' : Nat → File} (h : dropFds l file = .ok file') (f : Nat) :
    (file' f).iSize = (file f).iSize ∧ (¬ ComesToZero l file f → (file' f).mmap = (file f).mmap) := by
  induction l generalizing file with
  | nil =>
    cases h
    exact ⟨rfl, fun _ => rfl⟩
  | cons a l ih =>
    cases ha : a.file with
    | none =>
      rw [dropFds, derefFd_closed ha, error_bind] at h
      cases h
    | some g =>
      rw [dropFds, derefFd_open ha, ok_bind] at h
      obtain ⟨hsize, hmmap⟩ := ih h
      rw [hsize]
      rw [ComesToZero] at hmmap ⊢
      rw [fdCount_cons ha]
      by_cases hf : g = f
      · subst hf
        simp only [Function.update_self, if_true] at hmmap ⊢
        refine ⟨trivial, fun hnot => ?_⟩
        rw [hmmap (by omega), if_neg (by omega)]
      · rw [Function.update_of_ne (Ne.symm hf)] at hmmap ⊢
        rw [if_neg hf, Nat.add_zero]
        exact ⟨rfl, hmmap⟩

/-- The loop frees the buffers of the files whose counters come to 0: the induction is on the descriptors, and
`S` are the files whose buffers may still be freed. -/
lemma dropBuffers_holds {l : List OpenFile} {file : Nat → File} {n : Nat → Nat} {S : Finset Nat}
    {K R : Multiset (Nat × Nat)} (hS : ∀ f, ComesToZero l file f → f ∈ S) (hopen : ∀ of ∈ l, of.file ≠ none)
    (hold : heapLedger.holds m (S.val.map (fun f => ((file f).mmap, n f)) + (K + R)))
    (e : dropBuffers l file m = .ok m') :
    ∃ R', heapLedger.holds m' (K + R') ∧ ∀ a ∈ K, payload a m' = payload a m := by
  induction l generalizing file m S R with
  | nil =>
    cases e
    rw [add_left_comm] at hold
    exact ⟨_, hold, fun _ _ => rfl⟩
  | cons a l ih =>
    have hopen' : ∀ of ∈ l, of.file ≠ none := fun of hof => hopen of (List.mem_cons_of_mem _ hof)
    obtain ⟨file0, ptr⟩ := a
    cases file0 with
    | none => exact absurd rfl (hopen _ List.mem_cons_self)
    | some g =>
      have hcons := fdCount_cons (show OpenFile.file ⟨some g, ptr⟩ = some g from rfl) l
      obtain ⟨m1, e1, e⟩ := bind_ok.1 e
      obtain ⟨file1, hfile1⟩ : ∃ file1, file1 = Function.update file g { file g with
          opened := (file g).opened - 1
          mmap := if (file g).opened - 1 = 0 then 0 else (file g).mmap } := ⟨_, rfl⟩
      change dropBuffers l (Function.update file g { file g with
          opened := (file g).opened - 1
          mmap := if (file g).opened - 1 = 0 then 0 else (file g).mmap }) m1 = _ at e
      rw [← hfile1] at e
      have hother : ∀ f, f ≠ g → file1 f = file f := fun f hf => by rw [hfile1, Function.update_of_ne hf]
      have hopened : (file1 g).opened = (file g).opened - 1 := by rw [hfile1, Function.update_self]
      have hzero : ∀ f, f ≠ g → ComesToZero l file1 f → f ∈ S := fun f hf h => by
        rw [ComesToZero, hother f hf] at h
        exact hS f ⟨h.1, by rw [hcons, if_neg (Ne.symm hf)]; exact h.2⟩
      rw [dropBuffer] at e1
      by_cases hz : (file g).opened - 1 = 0
      · rw [if_pos hz] at e1
        have hg : g ∈ S := hS g ⟨by omega, by rw [hcons, if_pos rfl]; omega⟩
        have hmap : (S.erase g).val.map (fun f => ((file f).mmap, n f)) =
            (S.erase g).val.map (fun f => ((file1 f).mmap, n f)) := by
          refine Multiset.map_congr rfl fun f hf => ?_
          rw [hother f (Finset.ne_of_mem_erase (Finset.mem_def.2 hf))]
        have hsplit : S.val.map (fun f => ((file f).mmap, n f)) = {((file g).mmap, n g)} +
            (S.erase g).val.map (fun f => ((file1 f).mmap, n f)) := by
          rw [map_val_split (Finset.singleton_subset_iff.2 hg), Finset.singleton_val, Multiset.map_singleton,
            Finset.sdiff_singleton_eq_erase, hmap]
        rw [hsplit, add_assoc] at hold
        obtain ⟨hold1, kept1⟩ := kfree_effect e1 _ hold
        rw [zero_add] at hold1
        have hS1 : ∀ f, ComesToZero l file1 f → f ∈ S.erase g := fun f hf => by
          have hfg : f ≠ g := by
            rintro rfl
            have h1 := hf.1
            omega
          exact Finset.mem_erase.2 ⟨hfg, hzero f hfg hf⟩
        obtain ⟨R', hold', kept'⟩ := ih hS1 hopen' hold1 e
        refine ⟨R', hold', fun a ha => (kept' a ha).trans (kept1 a ?_)⟩
        exact Multiset.mem_add.2 (.inr (Multiset.mem_add.2 (.inl ha)))
      · rw [if_neg hz] at e1
        cases e1
        have hmap : (fun f => ((file f).mmap, n f)) = fun f => ((file1 f).mmap, n f) := by
          funext f
          by_cases hfg : f = g
          · rw [hfg, hfile1, Function.update_self, if_neg hz]
          · rw [hother f hfg]
        rw [hmap] at hold
        have hS1 : ∀ f, ComesToZero l file1 f → f ∈ S := fun f hf => by
          by_cases hfg : f = g
          · subst hfg
            obtain ⟨h1, h2⟩ := hf
            exact hS f ⟨by omega, by rw [hcons, if_pos rfl]; omega⟩
          · exact hzero f hfg hf
        exact ih hS1 hopen' hold e

end Buffers

/-! ## Steps -/

namespace Sharing

variable {d : Drive} {hd : Hd} {inodes : Nat → Inode} {files files' : Files} {m m' : Mm} {s s' : Shared}

lemma cached (inv : Sharing d hd inodes files m) {f : Nat} (hf : 0 < entries files f) : f ∈ files.cached :=
  mem_cached inv.pointed hf

/-- A buffer that is kept has the contents of its file. -/
lemma byte (inv : Sharing d hd inodes files m) {f o : Nat} (hf : 0 < entries files f)
    (kept : payload (bufferChunk files f) m' = payload (bufferChunk files f) m) (ho : o < (inodes f).iSize) :
    m'.mem ((files.file f).mmap + o) = fileByte d hd (inodes f) o := by
  have hlt : o < (bufferChunk files f).2 := by
    change o < (files.file f).iSize
    rwa [inv.size f (inv.cached hf)]
  exact (payload_byte kept hlt).trans (inv.content f hf o ho)

/-- What else is done in the kernel. -/
lemma keep (inv : Sharing d hd inodes files m) (k : Keeps (buffers files) m m') :
    Sharing d hd inodes files m' := by
  obtain ⟨R, hold⟩ := inv.held
  obtain ⟨R', hold', kept⟩ := k R hold
  exact ⟨inv.seats, inv.pointed, inv.size, inv.ptr, ⟨R', hold'⟩, fun f hf o ho =>
    inv.byte hf (kept _ (bufferChunk_mem inv.pointed hf)) ho⟩

/-- A call that leaves the descriptors and the buffers of the open files. -/
lemma quiet (inv : Sharing d hd inodes files m) (seats : Seats files'.table)
    (he : ∀ f, entries files' f = entries files f) (hcached : ∀ f ∈ files.cached, f ∈ files'.cached)
    (hfile : ∀ f ∈ files.cached, bufferChunk files' f = bufferChunk files f)
    (hsize : ∀ f ∈ files'.cached, (files'.file f).iSize = (inodes f).iSize)
    (hptr : ∀ p ∈ live files'.table, InFiles inodes (files'.fd p)) :
    Sharing d hd inodes files' m := by
  have hpointed : ∀ f ∉ files'.cached, entries files' f = 0 := fun f hf => by
    rw [he]
    exact inv.pointed f fun h => hf (hcached f h)
  have hbuf : buffers files' = buffers files :=
    buffers_congr inv.pointed hpointed he fun f hf => hfile f (inv.cached hf)
  refine ⟨seats, hpointed, hsize, hptr, ?_, fun f hf o ho => ?_⟩
  · obtain ⟨R, hold⟩ := inv.held
    exact ⟨R, hbuf ▸ hold⟩
  · rw [he] at hf
    have hmmap : (files'.file f).mmap = (files.file f).mmap := congrArg Prod.fst (hfile f (inv.cached hf))
    rw [hmmap]
    exact inv.content f hf o ho

/-- `sys_open` reads the file into a new buffer. -/
lemma opened (inv : Sharing d hd inodes files m) (hsize : BlockSize hd.blocksize)
    (h2g : 512 * d.sectors < 2147483648) {f buf : Nat} (maps : MapsFile d hd (inodes f))
    (h0 : files.table.current ≠ 0) (hf : f ∈ files.cached)
    (e : Ext2.ext2ReadFile d hd m (inodes f) = .ok (m', buf)) :
    Sharing d hd inodes (Creeks.sysOpen files (some f) buf).1 m' := by
  obtain ⟨seats, pointed, size, ptr, ⟨R, hold⟩, -⟩ := id inv
  obtain ⟨chunk, kept, bytes⟩ := maps.bytes hsize h2g hold e
  obtain ⟨files', hfiles⟩ : ∃ files', files' = (Creeks.sysOpen files (some f) buf).1 := ⟨_, rfl⟩
  rw [← hfiles]
  have he : ∀ g, entries files' g = entries files g + if g = f then 1 else 0 := fun g => by
    rw [hfiles]
    exact Counted.entries_open seats h0 f buf g
  have hcached : files'.cached = files.cached := by rw [hfiles]; rfl
  have hsame : ∀ g, g ≠ f → files'.file g = files.file g := fun g hg => by
    rw [hfiles]
    exact Function.update_of_ne hg ..
  have hnew : bufferChunk files' f = (buf, (inodes f).iSize) := by
    rw [bufferChunk, hfiles, Creeks.sysOpen]
    dsimp only
    rw [Function.update_self, ← size f hf]
  have hpointed : ∀ g ∉ files'.cached, entries files' g = 0 := fun g hg => by
    rw [hcached] at hg
    have hgf : g ≠ f := by
      rintro rfl
      exact hg hf
    rw [he, if_neg hgf, pointed g hg]
  have hothers := buffers_rest pointed hpointed (fun g hg => by rw [he, if_neg hg, Nat.add_zero]) hsame
  have hbuf' : buffers files' = {(buf, (inodes f).iSize)} +
      ((openFiles files) \ {f}).val.map (bufferChunk files) := by
    have hmem : f ∈ openFiles files' := (mem_openFiles hpointed).2 (by rw [he, if_pos rfl]; omega)
    rw [buffers, map_val_split (Finset.singleton_subset_iff.2 hmem), hothers, Finset.singleton_val,
      Multiset.map_singleton, hnew]
  have hbuf : ∃ X, buffers files = ((openFiles files) \ {f}).val.map (bufferChunk files) + X := by
    refine ⟨((openFiles files) ∩ {f}).val.map (bufferChunk files), ?_⟩
    rw [buffers, map_val_split (@Finset.inter_subset_left _ _ (openFiles files) {f}), Finset.sdiff_inter_self_left,
      add_comm]
  obtain ⟨X, hX⟩ := hbuf
  refine ⟨?_, hpointed, ?_, ?_, ⟨X + R, ?_⟩, fun g hg o ho => ?_⟩
  · rw [hfiles]
    exact seats
  · intro g hg
    rw [hcached] at hg
    by_cases hgf : g = f
    · subst hgf
      exact congrArg Prod.snd hnew
    · rw [hsame g hgf]
      exact size g hg
  · intro p hp
    rw [hfiles] at hp ⊢
    refine inFiles_setCurrentFd (ptr p hp) fun g q hmem => ?_
    rcases mem_allotFd hmem with hmem | hmem
    · exact ptr _ (Counted.current_live seats h0) g q hmem
    · cases hmem
      exact Nat.zero_le _
  · convert chunk using 1
    rw [hbuf', hX]
    abel
  · by_cases hgf : g = f
    · subst hgf
      rw [show (files'.file g).mmap = buf from congrArg Prod.fst hnew]
      exact bytes o ho
    · rw [he, if_neg hgf, Nat.add_zero] at hg
      rw [hsame g hgf]
      exact inv.byte hg (kept _ (Multiset.mem_add.2 (.inl (bufferChunk_mem pointed hg)))) ho

/-- `sys_close` of the last descriptor of a file frees its buffer. -/
lemma closed (inv : Sharing d hd inodes files m) {fd f ptr : Nat} (h0 : files.table.current ≠ 0)
    (hget : files.currentFd[fd]? = some ⟨some f, ptr⟩) (hone : entries files f = 1)
    (e : kfree m (files.file f).mmap = .ok m') :
    Sharing d hd inodes { files.setCurrentFd (files.currentFd.set fd ⟨none, 0⟩) with
      file := Function.update files.file f { files.file f with mmap := 0 } } m' := by
  obtain ⟨seats, pointed, size, ptr, ⟨R, hold⟩, -⟩ := id inv
  obtain ⟨files', hfiles⟩ : ∃ files', files' = { files.setCurrentFd (files.currentFd.set fd ⟨none, 0⟩) with
      file := Function.update files.file f { files.file f with mmap := 0 } } := ⟨_, rfl⟩
  rw [← hfiles]
  have he : ∀ g, entries files' g + (if g = f then 1 else 0) = entries files g := fun g => by
    rw [hfiles]
    exact entries_close seats h0 _ hget g
  have hzero : entries files' f = 0 := by
    have hf := he f
    rw [if_pos rfl, hone] at hf
    omega
  have hother : ∀ g, g ≠ f → entries files' g = entries files g := fun g hg => by
    rw [← he g, if_neg hg, Nat.add_zero]
  have hcached : files'.cached = files.cached := by rw [hfiles]; rfl
  have hsame : ∀ g, g ≠ f → files'.file g = files.file g := fun g hg => by
    rw [hfiles]
    exact Function.update_of_ne hg ..
  have hpointed : ∀ g ∉ files'.cached, entries files' g = 0 := fun g hg => by
    rw [hcached] at hg
    have hz := he g
    rw [pointed g hg] at hz
    omega
  have hmem : f ∈ openFiles files := (mem_openFiles pointed).2 (by rw [hone]; decide)
  have hbuf' : buffers files' = ((openFiles files) \ {f}).val.map (bufferChunk files) := by
    have hnot : f ∉ openFiles files' := fun h => by
      rw [mem_openFiles hpointed, hzero] at h
      cases h
    rw [← buffers_rest pointed hpointed hother hsame, Finset.sdiff_singleton_eq_erase,
      Finset.erase_eq_of_notMem hnot, buffers]
  have hbuf : buffers files = {bufferChunk files f} + buffers files' := by
    rw [hbuf', buffers, map_val_split (Finset.singleton_subset_iff.2 hmem), Finset.singleton_val, Multiset.map_singleton]
  rw [hbuf, add_assoc] at hold
  obtain ⟨hold', kept⟩ := kfree_effect (n := (files.file f).iSize) e _ hold
  rw [zero_add] at hold'
  refine ⟨?_, hpointed, ?_, ?_, ⟨R, hold'⟩, fun g hg o ho => ?_⟩
  · rw [hfiles]
    exact seats
  · intro g hg
    rw [hcached] at hg
    by_cases hgf : g = f
    · subst hgf
      rw [hfiles]
      dsimp only
      rw [Function.update_self]
      exact size g hg
    · rw [hsame g hgf]
      exact size g hg
  · intro p hp
    rw [hfiles] at hp ⊢
    exact inFiles_setCurrentFd (ptr p hp) ((ptr _ (Counted.current_live seats h0)).set nofun)
  · have hgf : g ≠ f := by
      rintro rfl
      omega
    have hchunk : bufferChunk files' g = bufferChunk files g := by rw [bufferChunk, bufferChunk, hsame g hgf]
    have hkept := kept _ (Multiset.mem_add.2 (.inl (bufferChunk_mem hpointed hg)))
    rw [hchunk] at hkept
    rw [hother g hgf] at hg
    rw [hsame g hgf]
    exact inv.byte hg hkept ho

/-- `sys_exit` frees the buffers of the files it has the last descriptors of. -/
lemma exited (inv : Sharing d hd inodes files m) {status : Int} (h0 : files.table.current ≠ 0)
    (h : Creeks.exitFiles files status = .ok files')
    (hlast : ∀ f, ComesToZero files.currentFd files.file f → entries files f = fdCount files.currentFd f)
    (e : dropBuffers files.currentFd files.file m = .ok m') : Sharing d hd inodes files' m' := by
  obtain ⟨seats, pointed, size, ptr, ⟨R, hold⟩, -⟩ := id inv
  have he := Counted.entries_exit seats h0 h
  have hopen : ∀ of ∈ files.currentFd, of.file ≠ none := by
    intro of hof hnone
    rw [exitFiles, dropFds_closed hof hnone, error_bind] at h
    cases h
  obtain ⟨file, hdrop, h⟩ := bind_ok.1 h
  cases h
  obtain ⟨files', hfiles⟩ : ∃ files' : Files, files' = { files with
      file := file
      table := Creeks.sysExit files.table status } := ⟨_, rfl⟩
  change ∀ f, entries ({ files with
      file := file
      table := Creeks.sysExit files.table status } : Files) f + _ = _ at he
  change Sharing d hd inodes { files with
      file := file
      table := Creeks.sysExit files.table status } m'
  rw [← hfiles] at he ⊢
  have hcached : files'.cached = files.cached := by rw [hfiles]
  have hfile : files'.file = file := by rw [hfiles]
  have hpointed : ∀ g ∉ files'.cached, entries files' g = 0 := fun g hg => by
    rw [hcached] at hg
    have hz := he g
    rw [pointed g hg] at hz
    omega
  have hkeeps : ∀ f, 0 < entries files' f → ¬ ComesToZero files.currentFd files.file f := fun f hf hzero => by
    have h1 := he f
    have h2 := hlast f hzero
    omega
  have hchunk : ∀ f, 0 < entries files' f → bufferChunk files' f = bufferChunk files f := fun f hf => by
    obtain ⟨h1, h2⟩ := dropFds_kept hdrop f
    rw [bufferChunk, bufferChunk, hfile, h1, h2 (hkeeps f hf)]
  obtain ⟨S, hS⟩ : ∃ S : Finset Nat, ∀ f, f ∈ S ↔ f ∈ openFiles files ∧
      ComesToZero files.currentFd files.file f := by
    classical
    exact ⟨(openFiles files).filter (ComesToZero files.currentFd files.file), fun f => Finset.mem_filter⟩
  have hsub : openFiles files' ⊆ openFiles files \ S := fun f hf => by
    have hf' := (mem_openFiles hpointed).1 hf
    have h1 := he f
    refine Finset.mem_sdiff.2 ⟨(mem_openFiles pointed).2 (by omega), fun hmem => ?_⟩
    exact hkeeps f hf' ((hS f).1 hmem).2
  have hbuf : ∃ X, buffers files = S.val.map (bufferChunk files) + (buffers files' + X) := by
    refine ⟨((openFiles files \ S) \ openFiles files').val.map (bufferChunk files), ?_⟩
    have hmap : buffers files' = (openFiles files').val.map (bufferChunk files) :=
      Multiset.map_congr rfl fun f hf => hchunk f ((mem_openFiles hpointed).1 (Finset.mem_def.2 hf))
    have hsubS : S ⊆ openFiles files := fun f hf => ((hS f).1 hf).1
    rw [hmap, buffers, map_val_split hsubS, map_val_split hsub]
  obtain ⟨X, hX⟩ := hbuf
  rw [hX, add_assoc, add_assoc] at hold
  obtain ⟨R', hold', kept⟩ := dropBuffers_holds (fun f hf => (hS f).2 ⟨(mem_openFiles pointed).2 (by
    have h1 := hlast f hf
    have h2 := hf.1.trans hf.2
    omega), hf⟩) hopen hold e
  refine ⟨?_, hpointed, ?_, ?_, ⟨R', hold'⟩, fun g hg o ho => ?_⟩
  · rw [hfiles]
    exact seats.exit h0 status
  · intro g hg
    rw [hcached] at hg
    rw [hfile, (dropFds_kept hdrop g).1, size g hg]
  · intro p hp
    rw [hfiles] at hp ⊢
    obtain ⟨p1, p2, hstate⟩ := mem_live.1 hp
    rw [sysExit_state] at hstate
    refine ptr p (mem_live.2 ⟨p1, p2, ?_⟩)
    by_cases hcur : p = files.table.current
    · simp [hcur] at hstate
    · rwa [if_neg hcur] at hstate
  · have hg' : 0 < entries files g := by
      have h1 := he g
      omega
    have hkept := kept _ (bufferChunk_mem hpointed hg)
    rw [hchunk g hg] at hkept
    have hmmap : (files'.file g).mmap = (files.file g).mmap := congrArg Prod.fst (hchunk g hg)
    rw [hmmap]
    exact inv.byte hg' hkept ho

/-- A descriptor of the running process counts. -/
lemma entries_pos (inv : Sharing d hd inodes files m) (h0 : files.table.current ≠ 0) {fd f ptr : Nat}
    (ho : OpenAt files fd f ptr) : 0 < entries files f := by
  have hle : fdCount files.currentFd f ≤ entries files f :=
    Finset.single_le_sum (f := fun p => fdCount (files.fd p) f) (fun _ _ => Nat.zero_le _)
      (Counted.current_live inv.seats h0)
  refine lt_of_lt_of_le (List.countP_pos_iff.2 ⟨_, List.mem_of_getElem? ho, ?_⟩) hle
  exact decide_eq_true rfl

/-- The calls of a step. -/
lemma call (hsize : BlockSize hd.blocksize) (h2g : 512 * d.sectors < 2147483648)
    (maps : ∀ f, MapsFile d hd (inodes f)) {op : FileOp} (inv : Sharing d hd inodes files m)
    (st : FileStep files op files') (heap : op.Heap d hd inodes files m files' m') (good : op.Shares files) :
    Sharing d hd inodes files' m' := by
  cases st with
  | loadTask =>
    cases heap
    exact inv.quiet (inv.seats.step .loadTask) (Counted.entries_load files _) (fun _ h => h) (fun _ _ => rfl)
      inv.size fun p hp f ptr h => by
        obtain ⟨hp, h⟩ := Counted.mem_loadFiles hp h
        exact inv.ptr p hp f ptr h
  | sysWait h0 h =>
    cases heap
    have hl := Counted.live_wait h
    exact inv.quiet (inv.seats.step (.sysWait h0 h)) (fun f => Counted.entries_congr hl fun _ _ => rfl)
      (fun _ h => h) (fun _ _ => rfl) inv.size fun p hp => inv.ptr p (hl ▸ hp)
  | schedule =>
    cases heap
    have hl : live (schedule files.table) = live files.table := live_congr fun p _ _ => by rw [schedule_pList]
    exact inv.quiet (inv.seats.step .schedule) (fun f => Counted.entries_congr hl fun _ _ => rfl)
      (fun _ h => h) (fun _ _ => rfl) inv.size fun p hp => inv.ptr p (hl ▸ hp)
  | @node f opened iSize hf =>
    obtain ⟨hnode, rfl⟩ := heap
    refine inv.quiet inv.seats (fun _ => rfl) (fun _ h => List.mem_cons_of_mem _ h) (fun g hg => ?_)
      (fun g hg => ?_) inv.ptr
    · have hne : g ≠ f := fun e => hf (e ▸ hg)
      rw [bufferChunk, bufferChunk]
      dsimp only
      rw [Function.update_of_ne hne]
    · by_cases hgf : g = f
      · rw [hgf]
        exact hnode
      · dsimp only
        rw [Function.update_of_ne hgf]
        exact inv.size g ((List.mem_cons.1 hg).resolve_left hgf)
  | @sysOpen fp buf h0 hfp =>
    cases fp with
    | none =>
      cases heap
      exact inv
    | some f => exact inv.opened hsize h2g (maps f) h0 (hfp f rfl) heap
  | @sysRead fd bufsize r h0 h =>
    obtain ⟨hb, rfl⟩ := heap
    have he := fun f => @Counted.entries_read files fd bufsize f r inv.seats h0 h
    rcases Counted.sysRead_cases h with e | ⟨f, ptr, ho, e⟩
    · rwa [e]
    · rw [e] at he ⊢
      have hcur := inv.ptr _ (Counted.current_live inv.seats h0)
      have hf : (files.file f).iSize = (inodes f).iSize := inv.size f (inv.cached (inv.entries_pos h0 ho))
      have hserved := (maps f).size
      unfold Served at hserved
      refine inv.quiet inv.seats he (fun _ h => h) (fun _ _ => rfl) inv.size fun p hp => ?_
      refine inFiles_setCurrentFd (inv.ptr p hp) (hcur.set fun g hg => ?_)
      cases hg
      rw [hf]
      exact readCount_ptr_le (hcur f ptr (List.mem_of_getElem? ho)) (by omega) hb
  | @sysClose fd _ h0 h =>
    rcases Counted.sysClose_cases h with ⟨hnot, rfl⟩ | ⟨f, ptr, hget, rfl⟩
    · rcases heap with ⟨-, rfl⟩ | ⟨f, ptr, hget, -⟩
      · exact inv
      · exact absurd ⟨_, hget, nofun⟩ hnot
    · rcases heap with ⟨hnot, -⟩ | ⟨g, ptr', hget', e⟩
      · exact absurd ⟨_, hget, nofun⟩ hnot
      · cases hget.symm.trans hget'
        exact inv.closed h0 hget (good f ptr hget) e
  | sysExit h0 h => exact inv.exited h0 h (fun f hf => good f hf.1 hf.2) heap

/-- A step that frees a buffer with the last descriptor only. -/
lemma step (hsize : BlockSize hd.blocksize) (h2g : 512 * d.sectors < 2147483648)
    (maps : ∀ f, MapsFile d hd (inodes f)) {op : FileOp} (inv : Sharing d hd inodes s.files s.mm)
    (st : SharingStep d hd inodes s op s') : Sharing d hd inodes s'.files s'.mm := by
  obtain ⟨⟨st, m, m', before, heap, after⟩, good⟩ := st
  exact ((inv.keep before).call hsize h2g maps st heap good).keep after

/-- No file is open at boot. -/
lemma boot {beyond : Nat → Process} {file : Nat → File} (hold : ∃ R, heapLedger.holds m R) :
    Sharing d hd inodes (bootFiles beyond file) m := by
  have he : ∀ f, entries (bootFiles beyond file) f = 0 := fun f => Finset.sum_eq_zero fun _ _ => rfl
  refine ⟨Seats.boot beyond, fun f _ => he f, nofun, nofun, ?_, fun f hf => ?_⟩
  · obtain ⟨R, hold⟩ := hold
    exact ⟨R, by rwa [show buffers (bootFiles beyond file) = 0 from rfl, zero_add]⟩
  · rw [he] at hf
    cases hf

/-- The buffers of the open files have the contents of the files, and `sys_read` returns them. -/
lemma sharesFiles (inv : Sharing d hd inodes s.files s.mm) : SharesFiles d hd inodes s := by
  refine ⟨inv.held, fun fd f ptr user c h0 ho hb => ?_⟩
  have hpos := inv.entries_pos h0 ho
  have hsize := inv.size f (inv.cached hpos)
  have hptr := inv.ptr _ (Counted.current_live inv.seats h0) f ptr (List.mem_of_getElem? ho)
  obtain ⟨R, hold⟩ := inv.held
  obtain ⟨X, hX⟩ := Multiset.exists_cons_of_mem (bufferChunk_mem inv.pointed hpos)
  rw [hX, ← Multiset.singleton_add, add_assoc] at hold
  have hbounds := heapLedger_bounds hold
  rw [bufferChunk] at hbounds
  dsimp only at hbounds
  have hcontent : (s.files.file f).content s.mm.mem = fileBytes d hd (inodes f) := by
    rw [File.content, bytesAt, fileBytes, hsize]
    refine List.map_congr_left fun o ho => ?_
    have hlt := List.mem_range.1 ho
    rw [wrap_of_lt (by omega)]
    exact inv.content f hpos o hlt
  have hexact := @callExact_iff s.mm.mem ⟨s.files, user⟩ fd f ptr c ho (by dsimp only; omega)
    (by dsimp only; omega) hb
  refine ⟨_, readCall_open ho, fun heq => ?_, fun hfit => ?_⟩
  · -- a read that wraps returns more bytes than are left of the file
    by_contra hwrap
    have hcount := (readCount_of_wraps (hsize ▸ hptr) (by omega) hb (Nat.not_lt.1 hwrap)).1
    have hlen := congrArg List.length heq
    rw [length_bytesAt, length_readAt, ← hcontent, File.content, length_bytesAt] at hlen
    dsimp only at hlen
    omega
  · obtain ⟨g, q, r, hg, e, -, -, -, -, hbytes⟩ := hexact.2 fun g q hg => by
      cases ho.symm.trans hg
      exact hfit
    cases ho.symm.trans hg
    cases (readCall_open ho).symm.trans e
    rw [← hcontent]
    exact hbytes

end Sharing

/-- In every state reached from boot by steps that free a buffer with the last descriptor only, every open file
has its buffer, with its contents. -/
theorem file_sharing {d : Drive} {hd : Hd} {inodes : Nat → Inode} {beyond : Nat → Process} {file : Nat → File}
    {m : Mm} {ops : List FileOp} {s : Shared} (hsize : BlockSize hd.blocksize)
    (h2g : 512 * d.sectors < 2147483648) (maps : ∀ f, MapsFile d hd (inodes f))
    (hold : ∃ R, heapLedger.holds m R)
    (run : Run (SharingStep d hd inodes) ⟨bootFiles beyond file, m⟩ ops s) : SharesFiles d hd inodes s :=
  Sharing.sharesFiles (run.invariant (I := fun s => Sharing d hd inodes s.files s.mm)
    (fun _ _ _ inv st => inv.step hsize h2g maps st) (Sharing.boot hold))

/-- A drive of sevens. -/
def sevens : Drive := ⟨64, fun _ => 7, fun _ _ => 0⟩

/-- One process, with the file of 100 bytes in the cache. -/
def smallReader : Files := { oneReader with
  file := Function.update (fun _ => ⟨false, 0, 0, 0⟩) 0 ⟨false, 100, 0, 0⟩ }

lemma smallReader_run : Run (SharingStep sevens ⟨0, 0, 1024⟩ fun _ => smallFile)
    ⟨bootFiles (fun _ => blankProcess) fun _ => ⟨false, 0, 0, 0⟩, dirtyHeap 0⟩
    [.loadTask bareElf, .schedule, .node 0 0] ⟨smallReader, dirtyHeap 0⟩ := by
  have quiet : ∀ {s s' : Files} {op : FileOp} {m : Mm}, FileStep s op s' →
      op.Heap sevens ⟨0, 0, 1024⟩ (fun _ => smallFile) s m s' m → op.Shares s →
      SharingStep sevens ⟨0, 0, 1024⟩ (fun _ => smallFile) ⟨s, m⟩ op ⟨s', m⟩ :=
    fun st heap good => ⟨⟨st, _, _, Keeps.refl _ _, heap, Keeps.refl _ _⟩, good⟩
  exact .snoc (.snoc (.snoc .nil (quiet .loadTask rfl trivial)) (quiet .schedule rfl trivial))
    (quiet (.node List.not_mem_nil) ⟨rfl, rfl⟩ trivial)

lemma smallReader_seats : Seats smallReader.table :=
  (oneReader_run.invariant (I := Counted) (fun _ _ _ => Counted.step) (Counted.boot _ _)).seats

/-- The file is opened. -/
lemma small_open {s : Files} {m : Mm} {A : Multiset (Nat × Nat)} {n : Nat} (h0 : s.table.current ≠ 0)
    (hc : 0 ∈ s.cached) (h : SmallHeap m A n) (hn : n < 900) :
    ∃ buf m', SmallHeap m' ({(buf, 100)} + A) (n + 6) ∧
      SharingStep sevens ⟨0, 0, 1024⟩ (fun _ => smallFile) ⟨s, m⟩ (.sysOpen (some 0) buf)
        ⟨(sysOpen s (some 0) buf).1, m'⟩ := by
  have image : InImage sevens ⟨0, 0, 1024⟩ 1 := by decide
  obtain ⟨m', buf, e, h'⟩ := smallFile_run (by decide) image h hn
  refine ⟨buf, m', h', ⟨.sysOpen h0 fun f hf => ?_, _, _, Keeps.refl _ _, e, Keeps.refl _ _⟩, trivial⟩
  cases hf
  exact hc

theorem file_sharing_small : ∃ buf s, Run (SharingStep sevens ⟨0, 0, 1024⟩ fun _ => smallFile)
      ⟨bootFiles (fun _ => blankProcess) fun _ => ⟨false, 0, 0, 0⟩, dirtyHeap 0⟩
      [.loadTask bareElf, .schedule, .node 0 0, .sysOpen (some 0) buf] s ∧
    entries s.files 0 = 1 ∧ SharesFiles sevens ⟨0, 0, 1024⟩ (fun _ => smallFile) s := by
  have image : InImage sevens ⟨0, 0, 1024⟩ 1 := by decide
  have h0 : smallReader.table.current ≠ 0 := by decide
  obtain ⟨buf, m, -, st⟩ := small_open h0 (by simp [smallReader, oneReader]) (dirtyHeap_small 0) (by decide)
  have run := Run.snoc smallReader_run st
  refine ⟨buf, _, run, ?_, file_sharing ⟨0, by decide, rfl⟩ (by decide) (fun _ => smallFile_maps image)
    ⟨0, dirtyHeap_holds 0⟩ run⟩
  have he := Counted.entries_open smallReader_seats h0 0 buf 0
  have hnone : entries smallReader 0 = 0 := by decide
  rw [hnone] at he
  exact he

/-- A chunk that is out is not at address 0. -/
lemma heapLedger_ne_zero {m : Mm} {A : Multiset (Nat × Nat)} {n : Nat} : ¬ heapLedger.holds m ({(0, n)} + A) := by
  rintro ⟨chunks, live, rep, e⟩
  have hmem : (0, n) ∈ live := by
    rw [← Multiset.mem_coe, e]
    exact Multiset.mem_add.2 (.inr (Multiset.mem_add.2 (.inl (Multiset.mem_singleton_self _))))
  obtain ⟨c, hc, hp, -⟩ := rep.room 0 n hmem
  have hlow := (rep.bounds hc).1
  omega

/-- A process opens the file twice and closes one descriptor: a read on the other copies from address 0. -/
theorem shared_buffer_freed : ∃ buf buf' s, Run (ShareStep sevens ⟨0, 0, 1024⟩ fun _ => smallFile)
      ⟨bootFiles (fun _ => blankProcess) fun _ => ⟨false, 0, 0, 0⟩, dirtyHeap 0⟩
      [.loadTask bareElf, .schedule, .node 0 0, .sysOpen (some 0) buf, .sysOpen (some 0) buf', .sysClose 0] s ∧
    entries s.files 0 = 1 ∧ OpenAt s.files 1 0 0 ∧
    (∀ user, ∃ r, readCall s.mm.mem 1 ⟨s.files, user⟩ ⟨0, 100⟩ = .ok r ∧ r.copied = some (0, 100)) ∧
    ¬ SharesFiles sevens ⟨0, 0, 1024⟩ (fun _ => smallFile) s := by
  have h0 : smallReader.table.current ≠ 0 := by decide
  have hc : 0 ∈ smallReader.cached := by simp [smallReader, oneReader]
  obtain ⟨buf, m1, h1, st1⟩ := small_open h0 hc (dirtyHeap_small 0) (by decide)
  obtain ⟨s1, hs1⟩ : ∃ s1, s1 = (sysOpen smallReader (some 0) buf).1 := ⟨_, rfl⟩
  rw [← hs1] at st1
  have h01 : s1.table.current ≠ 0 := by rw [hs1]; exact h0
  have hc1 : 0 ∈ s1.cached := by rw [hs1]; exact hc
  obtain ⟨buf', m2, h2, st2⟩ := small_open h01 hc1 h1 (by decide)
  obtain ⟨s2, hs2⟩ : ∃ s2, s2 = (sysOpen s1 (some 0) buf').1 := ⟨_, rfl⟩
  rw [← hs2] at st2
  have h02 : s2.table.current ≠ 0 := by rw [hs2]; exact h01
  have seats : Seats s2.table := by
    rw [hs2, hs1]
    exact smallReader_seats
  have hfds : s2.currentFd = [⟨some 0, 0⟩, ⟨some 0, 0⟩] := by
    rw [hs2, hs1]
    rfl
  have hmmap : (s2.file 0).mmap = buf' := by
    rw [hs2]
    rfl
  have hsize : (s2.file 0).iSize = 100 := by
    rw [hs2, hs1]
    rfl
  obtain ⟨m3, h3⟩ := kfree_total h2.holds
  have hget : s2.currentFd[0]? = some ⟨some 0, 0⟩ := by rw [hfds]; rfl
  obtain ⟨s3, hs3⟩ : ∃ s3 : Files, s3 = { s2.setCurrentFd (s2.currentFd.set 0 ⟨none, 0⟩) with
      file := Function.update s2.file 0 { s2.file 0 with mmap := 0 } } := ⟨_, rfl⟩
  have e3 : sysClose s2 0 = .ok s3 := by
    rw [sysClose, hs3, hfds]
    rfl
  have st3 : ShareStep sevens ⟨0, 0, 1024⟩ (fun _ => smallFile) ⟨s2, m2⟩ (.sysClose 0) ⟨s3, m3⟩ :=
    ⟨.sysClose h02 e3, _, _, Keeps.refl _ _, .inr ⟨0, 0, hget, by rw [hmmap]; exact h3⟩, Keeps.refl _ _⟩
  have hentries : entries s3 0 = 1 := by
    have hopen := Counted.entries_open smallReader_seats h0 0 buf 0
    have hopen' := Counted.entries_open (s := s1) (by rw [hs1]; exact smallReader_seats) h01 0 buf' 0
    have hclose := entries_close seats h02 (Function.update s2.file 0 { s2.file 0 with mmap := 0 }) hget 0
    have hnone : entries smallReader 0 = 0 := by decide
    rw [← hs1, if_pos rfl, hnone] at hopen
    rw [← hs2, if_pos rfl, hopen] at hopen'
    rw [← hs3, if_pos rfl, hopen'] at hclose
    omega
  have hfile : s3.file 0 = { s2.file 0 with mmap := 0 } := by
    rw [hs3]
    dsimp only
    rw [Function.update_self]
  have hopen : OpenAt s3 1 0 0 := by
    rw [OpenAt, hs3, Files.currentFd, Files.setCurrentFd]
    dsimp only
    rw [Function.update_self, hfds]
    rfl
  refine ⟨buf, buf', _, .snoc (.snoc (.snoc (smallReader_run.mono fun _ _ _ h => h.1) st1.1) st2.1) st3, hentries,
    hopen, fun user => ⟨_, readCall_open hopen, ?_⟩, fun h => ?_⟩
  · dsimp only
    rw [hfile]
    dsimp only
    rw [hsize, readCount_of_fits (by decide) (by decide) (by decide)]
    rfl
  · obtain ⟨R, hold⟩ := h.live
    have hcached : 0 ∈ s3.cached := by rw [hs3, hs2]; exact hc1
    have hmem : bufferChunk s3 0 ∈ buffers s3 :=
      Multiset.mem_map_of_mem _ (Finset.mem_filter.2 ⟨List.mem_toFinset.2 hcached, by rw [hentries]; decide⟩)
    obtain ⟨X, hX⟩ := Multiset.exists_cons_of_mem hmem
    dsimp only at hold
    rw [hX, ← Multiset.singleton_add, add_assoc, bufferChunk, hfile] at hold
    exact heapLedger_ne_zero hold

end Creeks
