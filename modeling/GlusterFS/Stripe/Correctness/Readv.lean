import GlusterFS.Stripe.Io

/-!
# `Stripe.Correctness.Readv` — a striped read returns the file, if no child ends too early

The children of a striped file have together what the file has (`Striped`): each byte of the file is in the child
of its stripe, at its offset, and no child is longer than the file. Every striped write keeps this, as it goes to
the file one stripe at a time (`Striped.writev`). A read is cut at the same places (`readCalls_flatten`), and the
answer is the replies one after the other (`collected`).

What is missing for the read to return the file is that no child's file ends inside the read before the whole file
does. After a write that leaves a hole some children end early, and their short replies are not filled up: what
comes behind the hole moves forward. A read of no bytes at the start of a stripe is sent to no child and never
answered.
-/

namespace GlusterFS.Stripe

open List

variable {fctx : FdCtx} {stop place : Nat} {files : Children} {file : Sparse.File} {arrivals : List (Nat × ReadReply)}
  {calls : List ReadCall} {replies : List ReadReply}

/-- The child that has this byte. -/
def FdCtx.child (fctx : FdCtx) (k : Nat) : Nat := k / fctx.stripeSize % fctx.stripeCount

/-! ## Writes -/

/-- The children have together what the file has. -/
structure Striped (fctx : FdCtx) (files : Children) (file : Sparse.File) : Prop where
  byte : ∀ k, (files (fctx.child k)).byte k = file.byte k
  size : ∀ i, (files i).size ≤ file.size

theorem Striped.empty : Striped fctx (fun _ => .empty) .empty := ⟨fun _ => rfl, fun _ => le_rfl⟩

/-- All bytes of a place that ends with its stripe are in one child. -/
theorem child_eq_of_stripe {len k : Nat} (hlen : len ≤ fctx.stripeSize - place % fctx.stripeSize)
    (hlow : place ≤ k) (hhigh : k < place + len) : fctx.child k = fctx.child place := by
  have hpos := fctx.sizePos
  have hsplit := Nat.div_add_mod place fctx.stripeSize
  have hmod := Nat.mod_lt place hpos
  have hstripe : k / fctx.stripeSize = place / fctx.stripeSize := by
    apply Nat.div_eq_of_lt_le
    · rw [mul_comm]
      omega
    rw [Nat.add_mul, mul_comm]
    omega
  unfold FdCtx.child
  rw [hstripe]

/-- **One write of the loop**: a write that stays in one stripe goes to the file. -/
theorem Striped.write (h : Striped fctx files file) (call : WriteCall) (hchild : call.child = fctx.child call.offset)
    (hlen : call.vector.flatten.length ≤ fctx.stripeSize - call.offset % fctx.stripeSize) :
    Striped fctx (files.write call) (file.write call.offset call.vector.flatten) where
  byte := by
    intro k
    have hk := h.byte k
    unfold Children.write
    rw [Sparse.File.write_byte]
    by_cases hin : call.offset ≤ k ∧ k < call.offset + call.vector.flatten.length
    · rw [if_pos hin, child_eq_of_stripe hlen hin.1 hin.2, ← hchild, Function.update_self, Sparse.File.write_byte,
        if_pos hin]
    rw [if_neg hin]
    by_cases heq : fctx.child k = call.child
    · rw [heq, Function.update_self, Sparse.File.write_byte, if_neg hin, ← heq, hk]
    · rw [Function.update_of_ne heq, hk]
  size := by
    intro i
    have hi := h.size i
    unfold Children.write
    rw [Sparse.File.write_size]
    by_cases heq : i = call.child
    · rw [heq, Function.update_self, Sparse.File.write_size, ← heq]
      split
      · exact hi
      · omega
    rw [Function.update_of_ne heq]
    split
    · exact hi
    · omega

theorem Striped.writeCalls (vector : Iovec) (offset : Nat) : ∀ (fuel offsetOffset remaining : Nat) {files : Children}
    {file : Sparse.File}, Striped fctx files file → remaining < fuel →
    offsetOffset + remaining = vector.flatten.length →
    Striped fctx ((Stripe.writeCalls fctx vector offset fuel offsetOffset remaining).foldl Children.write files)
      (file.write (offset + offsetOffset) (vector.flatten.drop offsetOffset)) := by
  intro fuel
  induction fuel with
  | zero =>
    intro offsetOffset remaining files file _ hfuel
    omega
  | succ fuel ih =>
    intro offsetOffset remaining files file h hfuel htotal
    have hpos := fctx.sizePos
    have hmod := Nat.mod_lt (offset + offsetOffset) hpos
    rw [Stripe.writeCalls]
    generalize hfill : min (fctx.stripeSize - (offset + offsetOffset) % fctx.stripeSize) remaining = fillSize
    have hcut : (iovSubset vector offsetOffset (offsetOffset + fillSize)).flatten =
        (vector.flatten.drop offsetOffset).take fillSize := by
      rw [flatten_iovSubset (Nat.le_add_right ..), Nat.add_sub_cancel_left]
    have hlen : ((vector.flatten.drop offsetOffset).take fillSize).length = fillSize := by
      rw [length_take, length_drop]
      omega
    have hstays : (iovSubset vector offsetOffset (offsetOffset + fillSize)).flatten.length ≤
        fctx.stripeSize - (offset + offsetOffset) % fctx.stripeSize := by
      rw [hcut, hlen]
      omega
    have hone := h.write ⟨fctx.child (offset + offsetOffset), offset + offsetOffset,
      iovSubset vector offsetOffset (offsetOffset + fillSize)⟩ rfl hstays
    simp only [hcut] at hone
    split
    next hdone =>
      -- the last round has taken everything
      rw [take_of_length_le (by rw [length_drop]; omega)] at hone
      exact hone
    next hmore =>
      have hrest := ih (offsetOffset + fillSize) (remaining - fillSize) hone (by omega) (by omega)
      have hparts := Sparse.File.write_append file (offset + offsetOffset)
        ((vector.flatten.drop offsetOffset).take fillSize) (vector.flatten.drop (offsetOffset + fillSize))
      rw [hlen, ← drop_drop, take_append_drop] at hparts
      rw [← Nat.add_assoc, ← drop_drop, hparts] at hrest
      exact hrest

/-- **One striped write** goes to the file. -/
theorem Striped.writev (h : Striped fctx files file) (w : Write) :
    Striped fctx ((stripeWritev fctx w.vector w.offset).foldl Children.write files)
      (file.write w.offset w.vector.flatten) := by
  have hall := Striped.writeCalls w.vector w.offset (w.vector.flatten.length + 1) 0 w.vector.flatten.length h
    (Nat.lt_succ_self _) (zero_add _)
  rw [add_zero, drop_zero] at hall
  unfold stripeWritev
  rw [iovLength_eq]
  exact hall

/-- **Any writes**: the children have together what the file has. -/
theorem striped_childFiles (fctx : FdCtx) (writes : List Write) :
    Striped fctx (childFiles fctx writes) (logicalFile writes) := by
  unfold childFiles logicalFile
  have hrun : ∀ (ws : List Write) {files : Children} {file : Sparse.File}, Striped fctx files file →
      Striped fctx (ws.foldl (fun files w => (stripeWritev fctx w.vector w.offset).foldl Children.write files) files)
        (ws.foldl (fun file w => file.write w.offset w.vector.flatten) file) := by
    intro ws
    induction ws with
    | nil => exact fun h => h
    | cons w ws ih => exact fun h => ih (h.writev w)
  exact hrun writes .empty

/-! ## The reads that are sent -/

/-- In this place no child's file ends before the whole file. -/
def NoEarlyEnd (fctx : FdCtx) (files : Children) (file : Sparse.File) (low high : Nat) : Prop :=
  ∀ k, low ≤ k → k < high → k < file.size → k < (files (fctx.child k)).size

instance decidableNoEarlyEnd (fctx : FdCtx) (files : Children) (file : Sparse.File) (low high : Nat) :
    Decidable (NoEarlyEnd fctx files file low high) :=
  decidable_of_iff (∀ k < high, low ≤ k → k < file.size → k < (files (fctx.child k)).size)
    ⟨fun h k hlow hhigh => h k hhigh hlow, fun h k hhigh hlow => h k hlow hhigh⟩

/-- **One read of the loop**: the child returns what the file has. -/
theorem Striped.read (h : Striped fctx files file) (place len : Nat)
    (hlen : len ≤ fctx.stripeSize - place % fctx.stripeSize) (hends : NoEarlyEnd fctx files file place (place + len)) :
    (files (fctx.child place)).read place len = file.read place len := by
  apply Sparse.File.read_congr
  · have hsize := h.size (fctx.child place)
    by_cases hreach : place < min (place + len) file.size
    · -- the last byte of the place that the file has
      have hlast := hends (min (place + len) file.size - 1) (by omega) (by omega) (by omega)
      rw [child_eq_of_stripe hlen (by omega) (by omega)] at hlast
      omega
    · omega
  intro k hlow hhigh
  rw [← h.byte k, child_eq_of_stripe hlen hlow hhigh]

theorem roof_succ (fctx : FdCtx) (place : Nat) :
    roof (place + 1) fctx.stripeSize = place + (fctx.stripeSize - place % fctx.stripeSize) := by
  have hpos := fctx.sizePos
  have hmod := Nat.mod_lt place hpos
  have hsplit := Nat.div_add_mod' place fctx.stripeSize
  unfold roof
  rw [show place + 1 + fctx.stripeSize - 1 = place + fctx.stripeSize by omega, Nat.add_div_right _ hpos, Nat.succ_mul]
  omega

/-- The stripes a place reaches into. -/
def stripes (fctx : FdCtx) (place stop : Nat) : Nat :=
  (stop + fctx.stripeSize - 1) / fctx.stripeSize - place / fctx.stripeSize

theorem stripes_eq_zero (hle : place ≤ stop) (h : stripes fctx place stop = 0) : stop = place := by
  have hpos := fctx.sizePos
  have hsplit := Nat.div_add_mod' place fctx.stripeSize
  unfold stripes at h
  have hdiv : (stop + fctx.stripeSize - 1) / fctx.stripeSize < place / fctx.stripeSize + 1 := by omega
  rw [Nat.div_lt_iff_lt_mul hpos, Nat.succ_mul] at hdiv
  omega

theorem stripes_next {left : Nat} (h : stripes fctx place stop = left + 1) :
    (left = 0 ∧ stop ≤ place + (fctx.stripeSize - place % fctx.stripeSize)) ∨
    (place + (fctx.stripeSize - place % fctx.stripeSize) < stop ∧
      stripes fctx (place + (fctx.stripeSize - place % fctx.stripeSize)) stop = left ∧
      (place + (fctx.stripeSize - place % fctx.stripeSize)) / fctx.stripeSize = place / fctx.stripeSize + 1) := by
  have hpos := fctx.sizePos
  have hmod := Nat.mod_lt place hpos
  have hsplit := Nat.div_add_mod' place fctx.stripeSize
  have hnext : place + (fctx.stripeSize - place % fctx.stripeSize) = (place / fctx.stripeSize + 1) * fctx.stripeSize := by
    rw [Nat.succ_mul]
    omega
  have hdiv : (place + (fctx.stripeSize - place % fctx.stripeSize)) / fctx.stripeSize = place / fctx.stripeSize + 1 := by
    rw [hnext, Nat.mul_div_cancel _ hpos]
  unfold stripes at h ⊢
  rw [hdiv]
  cases left with
  | zero =>
    left
    have hlt : (stop + fctx.stripeSize - 1) / fctx.stripeSize < place / fctx.stripeSize + 1 + 1 := by omega
    rw [Nat.div_lt_iff_lt_mul hpos, Nat.succ_mul] at hlt
    exact ⟨rfl, by omega⟩
  | succ left =>
    right
    have hle : place / fctx.stripeSize + 1 + 1 ≤ (stop + fctx.stripeSize - 1) / fctx.stripeSize := by omega
    rw [Nat.le_div_iff_mul_le hpos, Nat.succ_mul] at hle
    exact ⟨by omega, by omega, rfl⟩

/-- **The loop of a read**: the reads together return what the file has there. -/
theorem readCalls_flatten (h : Striped fctx files file) :
    ∀ {left index place : Nat}, place ≤ stop → stripes fctx place stop = left →
      index % fctx.stripeCount = fctx.child place → NoEarlyEnd fctx files file place stop →
      (readCalls fctx stop left index place).flatMap (fun c => (files c.child).read c.offset c.size) =
        file.read place (stop - place) := by
  intro left
  induction left with
  | zero =>
    intro index place hle hleft _ _
    rw [stripes_eq_zero hle hleft, Nat.sub_self]
    simp [readCalls, Sparse.File.read]
  | succ left ih =>
    intro index place hle hleft hindex hends
    rw [readCalls, flatMap_cons, roof_succ, hindex]
    rcases stripes_next hleft with ⟨rfl, hlast⟩ | ⟨hmore, hleft', hdiv⟩
    · -- the last stripe
      have hread := h.read place (stop - place) (by omega) (by rwa [Nat.add_sub_cancel' hle])
      simp only [Nat.min_eq_right hlast, hread, readCalls, flatMap_nil, append_nil]
    rw [Nat.min_eq_left (le_of_lt hmore), Nat.add_sub_cancel_left]
    have hindex' : (index + 1) % fctx.stripeCount =
        fctx.child (place + (fctx.stripeSize - place % fctx.stripeSize)) := by
      unfold FdCtx.child at hindex ⊢
      rw [hdiv, Nat.add_mod index, hindex, ← Nat.add_mod]
    rw [ih (le_of_lt hmore) hleft' hindex' fun k hlow => hends k (by omega),
      h.read _ _ le_rfl fun k hlow hhigh => hends k hlow (by omega), Sparse.File.read_append]
    congr 1
    omega

theorem stripes_eq (fctx : FdCtx) (size offset : Nat) :
    roof (offset + size) fctx.stripeSize / fctx.stripeSize - floor offset fctx.stripeSize / fctx.stripeSize =
      stripes fctx offset (offset + size) := by
  unfold roof floor stripes
  rw [Nat.mul_div_cancel _ fctx.sizePos, Nat.mul_div_cancel _ fctx.sizePos]

theorem length_readCalls (stop : Nat) : ∀ left index place, (readCalls fctx stop left index place).length = left := by
  intro left
  induction left with
  | zero => exact fun _ _ => rfl
  | succ left ih =>
    intro index place
    rw [readCalls, length_cons, ih]

theorem length_stripeReadv (fctx : FdCtx) (size offset : Nat) :
    (stripeReadv fctx size offset).length = stripes fctx offset (offset + size) := by
  unfold stripeReadv
  rw [length_readCalls, stripes_eq]

theorem stripeReadv_flatten (h : Striped fctx files file) {size offset : Nat}
    (hends : NoEarlyEnd fctx files file offset (offset + size)) :
    (stripeReadv fctx size offset).flatMap (fun c => (files c.child).read c.offset c.size) = file.read offset size := by
  simp only [stripeReadv, stripes_eq]
  rw [readCalls_flatten h (Nat.le_add_right ..) rfl (Nat.mod_mod ..) hends, Nat.add_sub_cancel_left]

/-! ## The replies -/

/-- The slots after these replies: the reply of its number where there is one. -/
theorem replies_foldl {s : ReadLocal} (hnd : (arrivals.map Prod.fst).Nodup)
    {i : Nat} {r : ReadReply} (hi : i < s.replies.length) :
    ((i, r) ∈ arrivals → (arrivals.foldl stripeReadvCbk s).replies[i]? = some r.kept) ∧
    (i ∉ arrivals.map Prod.fst → (arrivals.foldl stripeReadvCbk s).replies[i]? = s.replies[i]?) := by
  induction arrivals generalizing s with
  | nil => simp
  | cons a arrivals ih =>
    rw [map_cons, nodup_cons] at hnd
    have hlen : i < (stripeReadvCbk s a).replies.length := by
      show i < (s.replies.set a.1 a.2.kept).length
      rwa [length_set]
    obtain ⟨hmem, hother⟩ := ih hnd.2 hlen
    have hset : (stripeReadvCbk s a).replies[i]? = (s.replies.set a.1 a.2.kept)[i]? := rfl
    constructor
    · intro hin
      rcases mem_cons.mp hin with rfl | hin
      · rw [foldl_cons, hother hnd.1, hset, getElem?_set_self hi]
      · exact hmem hin
    intro hnot
    rw [map_cons, mem_cons, not_or] at hnot
    rw [foldl_cons, hother hnot.2, hset, getElem?_set_ne (Ne.symm hnot.1)]

theorem length_replies_foldl (arrivals : List (Nat × ReadReply)) : ∀ s : ReadLocal,
    (arrivals.foldl stripeReadvCbk s).replies.length = s.replies.length := by
  induction arrivals with
  | nil => exact fun _ => rfl
  | cons a arrivals ih =>
    intro s
    rw [foldl_cons, ih]
    exact length_set

/-- The last of the replies that are waited for, and only it, answers. -/
theorem answers_foldl (hne : arrivals ≠ []) : ∀ {s : ReadLocal},
    s.callCount + arrivals.length = s.windCount → ∃ opErrno, (arrivals.foldl stripeReadvCbk s).answers =
      s.answers ++ [readAnswer (arrivals.foldl stripeReadvCbk s).replies opErrno] := by
  induction arrivals with
  | nil => exact absurd rfl hne
  | cons a arrivals ih =>
    intro s hcnt
    by_cases hlast : arrivals = []
    · subst hlast
      refine ⟨a.2.opErrno, ?_⟩
      show (if s.callCount + 1 = s.windCount then _ else _) = _
      rw [if_pos (by simpa using hcnt)]
      rfl
    rw [length_cons] at hcnt
    have hnot : s.callCount + 1 ≠ s.windCount := by
      have := length_pos_of_ne_nil hlast
      omega
    have hsame : (stripeReadvCbk s a).answers = s.answers := if_neg hnot
    have hcount' : (stripeReadvCbk s a).callCount + arrivals.length = (stripeReadvCbk s a).windCount := by
      show s.callCount + 1 + arrivals.length = s.windCount
      omega
    obtain ⟨opErrno, hrest⟩ := ih hlast hcount'
    refine ⟨opErrno, ?_⟩
    rw [foldl_cons, hrest, hsame]

section

variable (h : List.Forall₂ (fun c r => ReadReply.Reads (files c.child) c r) calls replies)
include h

theorem sumReplies_ok : ∀ (n : Int) opErrno stSize, (sumReplies n opErrno stSize replies).1 =
      n + (calls.flatMap fun c => (files c.child).read c.offset c.size).length := by
  induction h with
  | nil => simp [sumReplies]
  | @cons c r calls replies hread hrest ih =>
    intro n opErrno stSize
    obtain ⟨-, hret, -⟩ := hread
    rw [sumReplies, if_neg (by omega), hret, ih, flatMap_cons, length_append]
    omega

theorem flatten_vectors
    : (replies.flatMap ReadReply.vector).flatten = calls.flatMap fun c => (files c.child).read c.offset c.size := by
  induction h with
  | nil => rfl
  | cons hread _ ih => rw [flatMap_cons, flatMap_cons, flatten_append, ih, hread.1]

/-- **The answer** when every child has done its read. -/
theorem readAnswer_ok (opErrno : Errno) :
    (readAnswer replies opErrno).opRet = (calls.flatMap fun c => (files c.child).read c.offset c.size).length ∧
    (readAnswer replies opErrno).vector.flatten = calls.flatMap fun c => (files c.child).read c.offset c.size := by
  have hsum := sumReplies_ok h 0 opErrno (replies.headD .zero).stSize
  rw [Int.zero_add] at hsum
  constructor
  · exact hsum
  show (if (sumReplies ..).1 = -1 then [] else _).flatten = _
  rw [if_neg (by omega)]
  exact flatten_vectors h

end

theorem ReadReply.Reads.kept_eq {call : ReadCall} {r : ReadReply} (h : r.Reads file call) : r.kept = r := by
  unfold ReadReply.kept
  rw [if_pos]
  rw [h.2.1]
  exact Int.natCast_nonneg _

/-- When every read has its reply, in any order, the slots hold them in the order of the reads. -/
theorem collected {s : ReadLocal}
    (hslots : s.replies.length = calls.length) (hall : (arrivals.map Prod.fst).Perm (List.range calls.length))
    (hreads : ∀ a ∈ arrivals, ∀ c ∈ calls[a.1]?, a.2.Reads (files c.child) c) :
    List.Forall₂ (fun c r => ReadReply.Reads (files c.child) c r) calls (arrivals.foldl stripeReadvCbk s).replies := by
  have hlen : (arrivals.foldl stripeReadvCbk s).replies.length = calls.length := by
    rw [length_replies_foldl, hslots]
  rw [List.forall₂_iff_get]
  refine ⟨hlen.symm, ?_⟩
  intro i hi hi'
  obtain ⟨⟨j, r⟩, hmem, hj⟩ := List.mem_map.mp (hall.mem_iff.mpr (List.mem_range.mpr hi))
  cases hj
  have hr := hreads _ hmem _ (List.getElem?_eq_getElem hi)
  have hslot := (replies_foldl (s := s) (hall.nodup_iff.mpr List.nodup_range) (by omega)).1 hmem
  rw [hr.kept_eq] at hslot
  obtain ⟨_, hget⟩ := List.getElem?_eq_some_iff.mp hslot
  rw [List.get_eq_getElem, List.get_eq_getElem, hget]
  exact hr

/-! ## The result -/

/-- **A striped read.** When the children have done any writes and then the reads that are sent to them, with the
    replies in any order and cut into buffers in any way, then the read is answered once, with the bytes of the file
    from the offset on that it has; unless it is empty and starts with a stripe, and if the children asked do not
    end before the file does. -/
theorem readv_returns_logical_file (fctx : FdCtx) (writes : List Write) (size offset : Nat)
    (arrivals : List (Nat × ReadReply))
    (hall : (arrivals.map Prod.fst).Perm (List.range (stripeReadv fctx size offset).length))
    (hreads : ∀ a ∈ arrivals, ∀ c ∈ (stripeReadv fctx size offset)[a.1]?, a.2.Reads (childFiles fctx writes c.child) c)
    (hsent : 0 < size ∨ offset % fctx.stripeSize ≠ 0)
    (hends : NoEarlyEnd fctx (childFiles fctx writes) (logicalFile writes) offset (offset + size)) :
    ∃ answer, (arrivals.foldl stripeReadvCbk (.start (some fctx) size offset)).answers = [answer] ∧
      answer.opRet = ((logicalFile writes).read offset size).length ∧
      answer.vector.flatten = (logicalFile writes).read offset size := by
  have hlength : arrivals.length = (stripeReadv fctx size offset).length := by
    have := hall.length_eq
    rwa [length_map, length_range] at this
  have hne : arrivals ≠ [] := by
    rintro rfl
    rw [length_nil, length_stripeReadv] at hlength
    have hstop := stripes_eq_zero (Nat.le_add_right offset size) hlength.symm
    have hzero : size = 0 := by omega
    -- an empty read inside a stripe reaches into it
    have hpos := fctx.sizePos
    have hmod := Nat.mod_lt offset hpos
    have hsplit := Nat.div_add_mod' offset fctx.stripeSize
    unfold stripes at hlength
    have hnext : offset / fctx.stripeSize + 1 ≤ (offset + size + fctx.stripeSize - 1) / fctx.stripeSize := by
      rw [Nat.le_div_iff_mul_le hpos, Nat.succ_mul]
      omega
    omega
  obtain ⟨opErrno, hanswers⟩ := answers_foldl hne (s := .start (some fctx) size offset)
    (by show 0 + _ = _; rw [zero_add, hlength]; rfl)
  have hslots := collected (s := .start (some fctx) size offset) (length_replicate ..) hall hreads
  obtain ⟨hret, hbytes⟩ := readAnswer_ok hslots opErrno
  rw [stripeReadv_flatten (striped_childFiles fctx writes) hends] at hret hbytes
  exact ⟨_, hanswers, hret, hbytes⟩

/-- Ten bytes are written and all but the first three are read back, with the replies in the wrong order. -/
theorem read_after_write_pair :
    ∃ answer, ([(2, ⟨2, .ok, [[9, 10]], 10⟩), (0, ⟨1, .ok, [[4]], 10⟩), (1, ⟨4, .ok, [[5, 6], [7, 8]], 8⟩)].foldl
        stripeReadvCbk (.start (some pairCtx) 9 3)).answers = [answer] ∧
      answer.opRet = ((logicalFile [⟨0, [[1, 2, 3], [4, 5, 6, 7, 8, 9, 10]]⟩]).read 3 9).length ∧
      answer.vector.flatten = (logicalFile [⟨0, [[1, 2, 3], [4, 5, 6, 7, 8, 9, 10]]⟩]).read 3 9 :=
  readv_returns_logical_file pairCtx [⟨0, [[1, 2, 3], [4, 5, 6, 7, 8, 9, 10]]⟩] 9 3 _ (by decide)
    (by decide +kernel) (by decide) (by decide +kernel)

/-- **A hole is lost, and an empty read is.** After a write to the third stripe alone, the second child has an empty
    file; a read of three stripes gets nothing from it and returns eight bytes, with those of the third stripe where
    the hole is. A read of no bytes at the start of a stripe is sent to no child, and nobody answers it. -/
theorem read_over_hole_shifted :
    (∀ a ∈ [(0, ReadReply.mk 4 .ok [[0, 0, 0, 0]] 12), (1, ⟨0, .ok, [], 0⟩), (2, ⟨4, .ok, [[7, 8, 9, 10]], 12⟩)],
      ∀ c ∈ (stripeReadv pairCtx 12 0)[a.1]?, a.2.Reads (childFiles pairCtx [⟨8, [[7, 8, 9, 10]]⟩] c.child) c) ∧
    ([(0, ReadReply.mk 4 .ok [[0, 0, 0, 0]] 12), (1, ⟨0, .ok, [], 0⟩), (2, ⟨4, .ok, [[7, 8, 9, 10]], 12⟩)].foldl
      stripeReadvCbk (.start (some pairCtx) 12 0)).answers = [⟨8, .ok, [[0, 0, 0, 0], [7, 8, 9, 10]], 12⟩] ∧
    (logicalFile [⟨8, [[7, 8, 9, 10]]⟩]).read 0 12 = [0, 0, 0, 0, 0, 0, 0, 0, 7, 8, 9, 10] ∧
    stripeReadv pairCtx 0 4 = [] ∧ (ReadLocal.start (some pairCtx) 0 4).answers = [] := by
  decide +kernel

end GlusterFS.Stripe
