import GlusterFS.Lib.History
import GlusterFS.WriteBehind.File
import GlusterFS.WriteBehind.Correctness.Marking

/-!
# `WriteBehind.Correctness.Invariant` — the flags and references of the queue

What holds of the queue at every step of every interleaving (`Sound`). A write that the child has not answered is
in the queue, in the buffer of one request, and that request is referenced: `__wb_request_unref` cannot free it.
A wound write has only wound writes before it, and an operation that was marked has no write before it.

The invariant speaks about the operations that threads have still to do only through three lists of request
numbers: what will be unreferenced, what is on its way to the child or back, and what will be resumed. Every scan of
a pass keeps it because each single change does.
-/

namespace GlusterFS.WriteBehind

open Scan Request
open List

variable {log' : List Event} {o w id : Nat} {fop : Fop} {ids unrefs' : List Nat} {opRet opErrno : Int}

/-! ## What is under way -/

def Op.unrefs : Op → List Nat
  | .unref id _ => [id]
  | _ => []

def Op.winds : Op → List Nat
  | .send wind => wind.ids
  | _ => []

/-- The request this operation resumes, or prepares to resume. -/
def Op.resumes : Op → List Nat
  | .detach id => [id]
  | .resume id _ => [id]
  | _ => []

def Call.winds : Call → List Nat
  | .write wind => wind.ids
  | _ => []

def Answered (log : List Event) (w : Nat) : Prop :=
  ∃ writes size opRet, Event.answered writes size opRet ∈ log ∧ w ∈ writes

theorem Answered.mono {log : List Event} (hsub : log ⊆ log') (h : Answered log w) : Answered log' w := by
  obtain ⟨writes, size, opRet, hmem, hw⟩ := h
  exact ⟨writes, size, opRet, hsub hmem, hw⟩

variable (issued : List Fop)

/-- `w` is a write with something to write. -/
def IsWrite (w : Nat) : Prop := ∃ f, issued[w]? = some f ∧ f.isWrite = true ∧ 0 < f.size

/-- `o` is an operation that is no write. -/
def IsOther (o : Nat) : Prop := ∃ f, issued[o]? = some f ∧ f.isWrite = false

theorem IsOther.lt {issued : List Fop} (h : IsOther issued o) : o < issued.length := by
  obtain ⟨f, hf, -⟩ := h
  exact (List.getElem?_eq_some_iff.mp hf).1

theorem issued_keep {issued : List Fop} {f : Fop} (hf : issued[w]? = some f) (fop : Fop) :
    (issued ++ [fop])[w]? = some f := by
  rwa [getElem?_append_left (List.getElem?_eq_some_iff.mp hf).1]

theorem issued_cases {issued : List Fop} {f : Fop} (hf : (issued ++ [fop])[w]? = some f) :
    issued[w]? = some f ∨ (w = issued.length ∧ f = fop) := by
  by_cases hlt : w < issued.length
  · rw [getElem?_append_left hlt] at hf
    exact .inl hf
  have hw : w = issued.length := by
    have := (List.getElem?_eq_some_iff.mp hf).1
    rw [length_append, length_singleton] at this
    omega
  subst hw
  rw [getElem?_concat_length] at hf
  cases hf
  exact .inr ⟨rfl, rfl⟩

theorem IsWrite.of_append {issued : List Fop} (hlt : w < issued.length)
    (h : IsWrite (issued ++ [fop]) w) : IsWrite issued w := by
  obtain ⟨f, hf, hrest⟩ := h
  rcases issued_cases hf with hf | ⟨rfl, -⟩
  · exact ⟨f, hf, hrest⟩
  · exact absurd hlt (Nat.lt_irrefl _)

theorem IsOther.of_append {issued : List Fop} (hlt : o < issued.length)
    (h : IsOther (issued ++ [fop]) o) : IsOther issued o := by
  obtain ⟨f, hf, hrest⟩ := h
  rcases issued_cases hf with hf | ⟨rfl, -⟩
  · exact ⟨f, hf, hrest⟩
  · exact absurd hlt (Nat.lt_irrefl _)

theorem IsOther.append {issued : List Fop} (h : IsOther issued o) (fop : Fop) : IsOther (issued ++ [fop]) o := by
  obtain ⟨f, hf, hrest⟩ := h
  exact ⟨f, issued_keep hf fop, hrest⟩

/-- All writes before `o` that are not empty have been answered. -/
def WritesAnswered (log : List Event) (o : Nat) : Prop := ∀ w < o, IsWrite issued w → Answered log w

/-! ## The invariant -/

structure Request.Valid (issued : List Fop) (unrefs : List Nat) (r : Request) : Prop where
  stub : r.fop.isWrite = true → r.stub = true
  self : r.id ∈ r.carried
  carried : ∀ w ∈ r.carried, r.id ≤ w ∧ ∃ f, issued[w]? = some f ∧ f.isWrite = r.fop.isWrite ∧ f.size ≤ r.writeSize
  size : r.writeSize = r.fop.size
  reply : r.gotReply = true → r.stackWound = true
  -- one reference until the child answers, and one until the write is acknowledged
  refs : r.fop.isWrite = true →
    r.refcount = (if r.gotReply then 0 else 1) + (if r.writeBehind then unrefs.count r.id else 1)
  unacked : r.fop.isWrite = true → r.writeBehind = false → r.id ∉ unrefs
  marked : r.markedForResume = true → r.fop.isWrite = false

structure Sound (issued : List Fop) (q : List Request) (log : List Event) (unrefs onWay resumes : List Nat) : Prop where
  request : ∀ r ∈ q, r.Valid issued unrefs
  order : q.Pairwise fun a b => ∀ w ∈ a.carried, w < b.id
  wound : q.Pairwise fun a b =>
    b.fop.isWrite = true → b.stackWound = true → a.fop.isWrite = true ∧ a.stackWound = true
  marked : q.Pairwise fun a b => b.markedForResume = true → a.fop.isWrite = false
  writes : ∀ w, IsWrite issued w → Answered log w ∨ ∃ r ∈ q, r.fop.isWrite = true ∧ r.gotReply = false ∧ w ∈ r.carried
  others : ∀ o, IsOther issued o → Event.left o ∈ log ∨ ∃ r ∈ q, r.id = o
  nodup : onWay.Nodup
  sent : ∀ id ∈ onWay, ∃ r ∈ q, r.id = id ∧ r.fop.isWrite = true ∧ r.stackWound = true ∧ r.gotReply = false
  away : ∀ r ∈ q, r.fop.isWrite = true → r.stackWound = true → r.gotReply = false → r.fop.vector ≠ [] → r.id ∈ onWay
  owed : ∀ id ∈ unrefs, id < issued.length
  next : ∀ o ∈ resumes, IsOther issued o ∧ WritesAnswered issued log o

variable {a b : Request}

theorem rel_of_id_lt {R : Request → Request → Prop} {l : List Request}
    (hid : l.Pairwise fun a b => a.id < b.id) (hR : l.Pairwise R) (ha : a ∈ l) (hb : b ∈ l)
    (hlt : a.id < b.id) : R a b := by
  have hsymm : Std.Symm fun a b : Request => (a.id < b.id → R a b) ∧ (b.id < a.id → R b a) :=
    ⟨fun _ _ h => ⟨h.2, h.1⟩⟩
  have hpair : l.Pairwise fun a b => (a.id < b.id → R a b) ∧ (b.id < a.id → R b a) := by
    refine (hid.and hR).imp ?_
    rintro a b ⟨hab, hRab⟩
    exact ⟨fun _ => hRab, fun hba => absurd hba (Nat.lt_asymm hab)⟩
  have hne : a ≠ b := by
    rintro rfl
    exact Nat.lt_irrefl _ hlt
  exact (hpair.forall ha hb hne).1 hlt

variable {r : Request}

theorem Request.isWrite_iff : r.isWrite = true ↔ r.stub = true ∧ r.fop.isWrite = true := by
  simp [isWrite]

namespace Request.Valid

variable {issued : List Fop} {unrefs : List Nat} {r : Request}

section

variable (h : r.Valid issued unrefs)
include h

theorem id_lt : r.id < issued.length := by
  obtain ⟨-, f, hf, -⟩ := h.carried r.id h.self
  exact (List.getElem?_eq_some_iff.mp hf).1

theorem not_isOther (hw : r.fop.isWrite = true) : ¬ IsOther issued r.id := by
  rintro ⟨g, hg, hother⟩
  obtain ⟨-, f, hf, hkind, -⟩ := h.carried r.id h.self
  rw [hg] at hf
  cases hf
  rw [hother, hw] at hkind
  cases hkind

theorem not_isWrite_of_empty (hzero : r.writeSize = 0) (hw : w ∈ r.carried) : ¬ IsWrite issued w := by
  rintro ⟨g, hg, -, hpos⟩
  obtain ⟨-, f, hf, -, hsize⟩ := h.carried w hw
  rw [hg] at hf
  cases hf
  omega

theorem vector_ne_nil (hpos : 0 < r.writeSize) : r.fop.vector ≠ [] := by
  intro hnil
  rw [h.size, Fop.size, hnil] at hpos
  exact Nat.lt_irrefl 0 hpos

theorem gotReply_of_not_wound (hs : r.stackWound = false) : r.gotReply = false := by
  cases hg : r.gotReply with
  | false => rfl
  | true =>
    rw [h.reply hg] at hs
    cases hs

theorem of_count (hcnt : unrefs'.count r.id = unrefs.count r.id) : r.Valid issued unrefs' := { h with
  refs hw := by
    rw [hcnt]
    exact h.refs hw
  unacked hw hb := by
    rw [← count_eq_zero, hcnt, count_eq_zero]
    exact h.unacked hw hb }

end

end Request.Valid

variable {q' : List Request}

variable {pre post : List Request}

namespace Sound

variable {issued : List Fop} {q : List Request} {log : List Event} {unrefs onWay resumes : List Nat}

theorem empty : Sound [] [] [] [] [] [] where
  request _ h := nomatch h
  order := .nil
  wound := .nil
  marked := .nil
  writes w h := by
    obtain ⟨f, hf, -⟩ := h
    simp at hf
  others o h := by
    have := h.lt
    simp at this
  nodup := .nil
  sent _ h := nomatch h
  away _ h := nomatch h
  owed _ h := nomatch h
  next _ h := nomatch h

/-- Neither the order of what is under way matters nor events that are added to the log; less may be resumed. -/
theorem mono {onWay' resumes' : List Nat}
    (h : Sound issued q log unrefs onWay resumes) (hlog : log ⊆ log') (hunrefs : unrefs.Perm unrefs')
    (honWay : onWay.Perm onWay') (hresumes : resumes' ⊆ resumes) : Sound issued q log' unrefs' onWay' resumes' := { h with
  request r hr := (h.request r hr).of_count (hunrefs.count_eq r.id).symm
  writes w hw := (h.writes w hw).imp_left fun ha => ha.mono hlog
  others o ho := (h.others o ho).imp_left fun hl => hlog hl
  nodup := honWay.nodup_iff.mp h.nodup
  sent id hid := h.sent id (honWay.mem_iff.mpr hid)
  away r hr hw hs hg hv := honWay.mem_iff.mp (h.away r hr hw hs hg hv)
  owed id hid := h.owed id (hunrefs.mem_iff.mpr hid)
  next o ho := ⟨(h.next o (hresumes ho)).1, fun w hlt hw => ((h.next o (hresumes ho)).2 w hlt hw).mono hlog⟩ }

theorem id_lt (h : Sound issued (pre ++ r :: post) log unrefs onWay resumes) :
    (∀ x ∈ pre, x.id < r.id) ∧ ∀ x ∈ post, r.id < x.id := by
  have horder := pairwise_append.mp h.order
  constructor
  · intro x hx
    have hval := h.request x (mem_append_left _ hx)
    exact horder.2.2 x hx r mem_cons_self x.id hval.self
  intro x hx
  have hval := h.request r (mem_append_right _ mem_cons_self)
  exact (pairwise_cons.mp horder.2.1).1 x hx r.id hval.self

theorem unique (h : Sound issued q log unrefs onWay resumes) (ha : a ∈ q) (hb : b ∈ q) (hid : a.id = b.id) : a = b := by
  obtain ⟨pre, post, rfl⟩ := append_of_mem ha
  have hlt := h.id_lt
  rcases mem_append.mp hb with hb | hb
  · have := hlt.1 b hb
    omega
  rcases mem_cons.mp hb with hb | hb
  · exact hb.symm
  have := hlt.2 b hb
  omega

theorem ids_rising (h : Sound issued q log unrefs onWay resumes) : q.Pairwise fun a b => a.id < b.id := by
  refine h.order.imp_of_mem ?_
  intro a b ha _ hab
  exact hab a.id (h.request a ha).self

/-! ## Single changes of a pass -/

/-- **A write is acknowledged**: its second reference is given back later. -/
theorem behind (h : Sound issued (pre ++ r :: post) log unrefs onWay resumes)
    (hr : Unacked pre r) : Sound issued (pre ++ r.behind :: post) log (r.id :: unrefs) onWay resumes := by
  have hval := h.request r (mem_append_right _ mem_cons_self)
  have hw := (Request.isWrite_iff.mp hr.1).2
  have hlt := h.id_lt
  have hother : ∀ x : Request, x.Valid issued unrefs → x.id ≠ r.id → x.Valid issued (r.id :: unrefs) := by
    intro x hx hne
    exact hx.of_count (count_cons_of_ne hne.symm)
  have hself : r.behind.Valid issued (r.id :: unrefs) := by
    refine { hval with refs := ?_, unacked := fun _ hb => nomatch hb }
    intro _
    have hrefs := hval.refs hw
    have hnot := count_eq_zero.mpr (hval.unacked hw hr.2)
    rw [hr.2] at hrefs
    show r.refcount = (if r.gotReply then 0 else 1) + List.count r.id (r.id :: unrefs)
    rw [count_cons_self, hnot]
    simpa using hrefs
  refine
    { h with
      request := ?_
      order := pairwise_update h.order (fun _ _ hx => hx) (fun _ _ hx => hx)
      wound := pairwise_update h.wound (fun _ _ hx => hx) (fun _ _ hx => hx)
      marked := pairwise_update h.marked (fun _ _ hx => hx) (fun _ _ hx => hx)
      writes := fun w hwrite => (h.writes w hwrite).imp_right (exists_mem_update r r.behind (fun _ hP => hP) (fun hP => hP))
      others := fun o ho => (h.others o ho).imp_right (exists_mem_update r r.behind (fun _ hP => hP) (fun hP => hP))
      sent := fun id hid => exists_mem_update r r.behind (fun _ hP => hP) (fun hP => hP) (h.sent id hid)
      away := forall_mem_update h.away (fun _ hP => hP) (fun hP => hP)
      owed := ?_ }
  · intro x hx
    rcases mem_append.mp hx with hx | hx
    · exact hother x (h.request x (mem_append_left _ hx)) (Nat.ne_of_lt (hlt.1 x hx))
    rcases mem_cons.mp hx with rfl | hx
    · exact hself
    exact hother x (h.request x (mem_append_right _ (mem_cons_of_mem r hx)))
      (Nat.ne_of_gt (hlt.2 x hx))
  · exact forall_mem_cons.mpr ⟨hval.id_lt, h.owed⟩

/-- An acknowledged write that is not wound leaves the queue, if no write it carries needs it. -/
theorem remove (h : Sound issued (pre ++ b :: post) log unrefs onWay resumes) (hb : b.Loose)
    (hcarried : ∀ w ∈ b.carried, ¬ IsWrite issued w) : Sound issued (pre ++ post) log unrefs onWay resumes := by
  have hval := h.request b (mem_append_right _ mem_cons_self)
  have hw := (Request.isWrite_iff.mp hb.1).2
  have hkeep : (pre ++ post).Sublist (pre ++ b :: post) :=
    (List.Sublist.refl pre).append (sublist_cons_self b post)
  -- every request but `b` stays
  have hstays : ∀ x ∈ pre ++ b :: post, x ≠ b → x ∈ pre ++ post := by
    intro x hx hne
    rcases mem_append.mp hx with hx | hx
    · exact mem_append_left _ hx
    · exact mem_append_right _ ((mem_cons.mp hx).resolve_left hne)
  refine
    { h with
      request := fun x hx => h.request x (hkeep.subset hx)
      order := h.order.sublist hkeep
      wound := h.wound.sublist hkeep
      marked := h.marked.sublist hkeep
      writes := ?_
      others := ?_
      sent := ?_
      away := fun x hx => h.away x (hkeep.subset hx) }
  · intro w hwrite
    refine (h.writes w hwrite).imp_right ?_
    rintro ⟨x, hx, hxw, hxg, hxc⟩
    refine ⟨x, hstays x hx ?_, hxw, hxg, hxc⟩
    rintro rfl
    exact hcarried w hxc hwrite
  · intro o ho
    refine (h.others o ho).imp_right ?_
    rintro ⟨x, hx, rfl⟩
    refine ⟨x, hstays x hx ?_, rfl⟩
    rintro rfl
    exact hval.not_isOther hw ho
  intro id hid
  obtain ⟨x, hx, hxid, hxw, hxs, hxg⟩ := h.sent id hid
  refine ⟨x, hstays x hx ?_, hxid, hxw, hxs, hxg⟩
  rintro rfl
  rw [hb.2.2] at hxs
  cases hxs

/-- **An empty write is dropped.** -/
theorem drop (h : Sound issued (pre ++ b :: post) log unrefs onWay resumes)
    (hb : Drops b) : Sound issued (pre ++ post) log unrefs onWay resumes :=
  h.remove hb.1 fun _ hw =>
    (h.request b (mem_append_right _ mem_cons_self)).not_isWrite_of_empty hb.2 hw

theorem valid_absorb (ha : a.Valid issued unrefs) (hb : b.Valid issued unrefs) (hab : Joins a b)
    (hlt : a.id < b.id) : (a.absorb b).Valid issued unrefs := by
  have hwa := (Request.isWrite_iff.mp hab.1.1).2
  have hwb := (Request.isWrite_iff.mp hab.2.1.1).2
  have hkind : (a.absorb b).fop.isWrite = true := by rw [absorb_isWrite, hwa]
  refine
    { stub := fun _ => ha.stub hwa
      self := mem_append_left _ ha.self
      carried := ?_
      size := ?_
      reply := ha.reply
      refs := fun _ => ha.refs hwa
      unacked := fun _ => ha.unacked hwa
      marked := ?_ }
  · intro w hw
    rw [hkind]
    rcases mem_append.mp hw with hw | hw
    · obtain ⟨hle, f, hf, hkf, hsize⟩ := ha.carried w hw
      exact ⟨hle, f, hf, by rw [hkf, hwa], Nat.le_trans hsize (Nat.le_add_right _ _)⟩
    obtain ⟨hle, f, hf, hkf, hsize⟩ := hb.carried w hw
    exact ⟨Nat.le_trans (Nat.le_of_lt hlt) hle, f, hf, by rw [hkf, hwb], Nat.le_trans hsize (Nat.le_add_left _ _)⟩
  · rw [absorb_size hab.2.2.2, ← ha.size]
    rfl
  intro hm
  have := ha.marked hm
  rw [hwa] at this
  cases this

/-- **Two neighbours are joined**: `a` carries what both carried. -/
theorem join (h : Sound issued (pre ++ a :: b :: post) log unrefs onWay resumes) (hab : Joins a b) :
    Sound issued (pre ++ a.absorb b :: post) log unrefs onWay resumes := by
  have hamem : a ∈ pre ++ a :: b :: post := mem_append_right _ mem_cons_self
  have hbmem : b ∈ pre ++ a :: b :: post :=
    mem_append_right _ (mem_cons_of_mem a mem_cons_self)
  have hva := h.request a hamem
  have hvb := h.request b hbmem
  have hwa := (Request.isWrite_iff.mp hab.1.1).2
  have hwb := (Request.isWrite_iff.mp hab.2.1.1).2
  have hkeep : (pre ++ a :: post).Sublist (pre ++ a :: b :: post) :=
    (List.Sublist.refl pre).append ((sublist_cons_self b post).cons_cons a)
  have hlt : a.id < b.id := h.id_lt.2 b mem_cons_self
  have hbpost : ∀ x ∈ post, ∀ w ∈ b.carried, w < x.id := by
    have hrest := (pairwise_append.mp h.order).2.1
    exact (pairwise_cons.mp (pairwise_cons.mp hrest).2).1
  -- what was true of some other request, or of one of the two, is true of some request now
  have hstays : ∀ x ∈ pre ++ a :: b :: post, x ≠ a → x ≠ b → x ∈ pre ++ a.absorb b :: post := by
    intro x hx hna hnb
    rcases mem_append.mp hx with hx | hx
    · exact mem_append_left _ hx
    exact mem_append_right _ (mem_cons_of_mem _
      ((mem_cons.mp ((mem_cons.mp hx).resolve_left hna)).resolve_left hnb))
  have hnew : a.absorb b ∈ pre ++ a.absorb b :: post := mem_append_right _ mem_cons_self
  refine
    { h with
      request := ?_
      order := ?_
      wound := pairwise_update (h.wound.sublist hkeep) ?_ ?_
      marked := pairwise_update (h.marked.sublist hkeep) (fun _ _ hx => hx) ?_
      writes := ?_
      others := ?_
      sent := ?_
      away := ?_ }
  · intro x hx
    rcases mem_append.mp hx with hx | hx
    · exact h.request x (mem_append_left _ hx)
    rcases mem_cons.mp hx with rfl | hx
    · exact valid_absorb hva hvb hab hlt
    · exact h.request x (mem_append_right _ (mem_cons_of_mem a (mem_cons_of_mem b hx)))
  · refine pairwise_update (h.order.sublist hkeep) (fun _ _ hx => hx) ?_
    intro x hx hax w hw
    rcases mem_append.mp hw with hw | hw
    · exact hax w hw
    · exact hbpost x hx w hw
  · intro x _ _ _ hs
    rw [show (a.absorb b).stackWound = a.stackWound from rfl, hab.1.2.2] at hs
    cases hs
  · intro x _ hax
    rw [absorb_isWrite]
    exact hax
  · intro x _ hax
    rw [absorb_isWrite]
    exact hax
  · intro w hwrite
    refine (h.writes w hwrite).imp_right ?_
    rintro ⟨x, hx, hxw, hxg, hxc⟩
    by_cases hxa : x = a
    · subst hxa
      exact ⟨_, hnew, by rw [absorb_isWrite, hwa], hxg, mem_append_left _ hxc⟩
    by_cases hxb : x = b
    · subst hxb
      exact ⟨_, hnew, by rw [absorb_isWrite, hwa], hva.gotReply_of_not_wound hab.1.2.2,
        mem_append_right _ hxc⟩
    · exact ⟨x, hstays x hx hxa hxb, hxw, hxg, hxc⟩
  · intro o ho
    refine (h.others o ho).imp_right ?_
    rintro ⟨x, hx, rfl⟩
    by_cases hxa : x = a
    · subst hxa
      exact ⟨_, hnew, rfl⟩
    by_cases hxb : x = b
    · subst hxb
      exact absurd ho (hvb.not_isOther hwb)
    · exact ⟨x, hstays x hx hxa hxb, rfl⟩
  · intro id hid
    obtain ⟨x, hx, hxid, hxw, hxs, hxg⟩ := h.sent id hid
    -- neither of the two is wound
    have hne : ∀ y : Request, y.stackWound = false → x ≠ y := by
      rintro y hy rfl
      rw [hy] at hxs
      cases hxs
    exact ⟨x, hstays x hx (hne a hab.1.2.2) (hne b hab.2.1.2.2), hxid, hxw, hxs, hxg⟩
  intro x hx hxw hxs
  rcases mem_append.mp hx with hx | hx
  · exact h.away x (mem_append_left _ hx) hxw hxs
  rcases mem_cons.mp hx with rfl | hx
  · rw [show (a.absorb b).stackWound = a.stackWound from rfl, hab.1.2.2] at hxs
    cases hxs
  · exact h.away x (mem_append_right _ (mem_cons_of_mem a (mem_cons_of_mem b hx))) hxw hxs

section

variable (h : Sound issued (pre ++ r :: post) log unrefs onWay resumes)
include h

/-- Before an operation with no write in front of it, every write is answered. -/
theorem writesAnswered (hr : r.fop.isWrite = false)
    (hpre : ∀ x ∈ pre, x.fop.isWrite = false) : WritesAnswered issued log r.id := by
  intro w hlt hwrite
  refine (h.writes w hwrite).resolve_right ?_
  rintro ⟨x, hx, hxw, -, hxc⟩
  rcases mem_append.mp hx with hx | hx
  · rw [hpre x hx] at hxw
    cases hxw
  rcases mem_cons.mp hx with rfl | hx
  · rw [hr] at hxw
    cases hxw
  -- a request behind `r` carries later writes only
  have hval := h.request x (mem_append_right _ (mem_cons_of_mem r hx))
  have hle := (hval.carried w hxc).1
  have hgt := h.id_lt.2 x hx
  omega

/-- **The next operation is marked**, to be resumed later. -/
theorem mark (hr : Next pre r) : Sound issued (pre ++ r.marked :: post) log unrefs onWay (r.id :: resumes) := by
  obtain ⟨-, hother, -, hpre⟩ := hr
  have hval := h.request r (mem_append_right _ mem_cons_self)
  refine
    { h with
      request := forall_mem_update h.request (fun _ hx => hx) (fun hx => { hx with marked := fun _ => hother })
      order := pairwise_update h.order (fun _ _ hx => hx) (fun _ _ hx => hx)
      wound := pairwise_update h.wound (fun _ _ hx => hx) (fun _ _ hx => hx)
      marked := pairwise_update h.marked (fun x hx _ _ => hpre x hx) (fun _ _ hx => hx)
      writes := fun w hwrite =>
        (h.writes w hwrite).imp_right (exists_mem_update r r.marked (fun _ hP => hP) (fun hP => hP))
      others := fun o ho =>
        (h.others o ho).imp_right (exists_mem_update r r.marked (fun _ hP => hP) (fun hP => hP))
      sent := fun id hid => exists_mem_update r r.marked (fun _ hP => hP) (fun hP => hP) (h.sent id hid)
      away := forall_mem_update h.away (fun _ hP => hP) (fun hP => hP)
      next := ?_ }
  intro o ho
  rcases mem_cons.mp ho with rfl | ho
  · obtain ⟨-, f, hf, hkind, -⟩ := hval.carried r.id hval.self
    exact ⟨⟨f, hf, by rw [hkind, hother]⟩, h.writesAnswered hother hpre⟩
  · exact h.next o ho

/-- **A write is wound**, to be sent later. -/
theorem wind (hr : Windable pre r) : Sound issued (pre ++ r.wound :: post) log unrefs (r.id :: onWay) resumes := by
  obtain ⟨hrw, hrs, hpre⟩ := hr
  have hval := h.request r (mem_append_right _ mem_cons_self)
  have hw := (Request.isWrite_iff.mp hrw).2
  have hg := hval.gotReply_of_not_wound hrs
  refine
    { h with
      request := forall_mem_update h.request (fun _ hx => hx) (fun hx => { hx with reply := fun _ => rfl })
      order := pairwise_update h.order (fun _ _ hx => hx) (fun _ _ hx => hx)
      wound := pairwise_update h.wound
        (fun x hx _ _ _ => ⟨(Request.isWrite_iff.mp (hpre x hx).1).2, (hpre x hx).2⟩)
        (fun x _ hx hxw hxs => ⟨(hx hxw hxs).1, rfl⟩)
      marked := pairwise_update h.marked (fun _ _ hx => hx) (fun _ _ hx => hx)
      writes := fun w hwrite =>
        (h.writes w hwrite).imp_right (exists_mem_update r r.wound (fun _ hP => hP) (fun hP => hP))
      others := fun o ho =>
        (h.others o ho).imp_right (exists_mem_update r r.wound (fun _ hP => hP) (fun hP => hP))
      nodup := nodup_cons.mpr ⟨?_, h.nodup⟩
      sent := ?_
      away := ?_ }
  · intro hmem
    obtain ⟨x, hx, hxid, -, hxs, -⟩ := h.sent r.id hmem
    have := h.unique hx (mem_append_right _ mem_cons_self) hxid
    rw [this, hrs] at hxs
    cases hxs
  · intro id hid
    rcases mem_cons.mp hid with rfl | hid
    · exact ⟨r.wound, mem_append_right _ mem_cons_self, rfl, hw, rfl, hg⟩
    exact exists_mem_update r r.wound (fun _ hP => hP)
      (fun hP => ⟨hP.1, hP.2.1, rfl, hP.2.2.2⟩) (h.sent id hid)
  intro x hx hxw hxs hxg hxv
  rcases mem_append.mp hx with hx | hx
  · exact mem_cons_of_mem _ (h.away x (mem_append_left _ hx) hxw hxs hxg hxv)
  rcases mem_cons.mp hx with rfl | hx
  · exact mem_cons_self
  exact mem_cons_of_mem _
    (h.away x (mem_append_right _ (mem_cons_of_mem r hx)) hxw hxs hxg hxv)

end

/-! ## A pass -/

section

variable (h : Sound issued q log unrefs onWay resumes)
include h

theorem unwindAll {unwinds : List Request} (hm : Marks Unacked Request.behind [] q q' unwinds) :
    Sound issued q' log (unwinds.map Request.id ++ unrefs) onWay resumes := by
  refine hm.rule (P := fun q taken => Sound issued q log (taken.map Request.id ++ unrefs) onWay resumes) ?_ [] h
  intro pre r post taken hr hP
  refine (hP.behind hr).mono (List.Subset.refl _) ?_ (.refl _) (List.Subset.refl _)
  rw [map_append, append_assoc]
  exact perm_middle.symm

theorem collapseAll {packed : List Request}
    (hm : Merges Joins Drops absorb q q' packed) : Sound issued q' log unrefs onWay resumes :=
  hm.rule (P := fun q => Sound issued q log unrefs onWay resumes) (fun _ _ _ _ hab hP => hP.join hab)
    (fun _ _ _ hb hP => hP.drop hb) [] h

theorem markAll {others : List Request} (hm : Marks Next Request.marked [] q q' others) :
    Sound issued q' log unrefs onWay (others.map Request.id ++ resumes) := by
  refine hm.rule (P := fun q taken => Sound issued q log unrefs onWay (taken.map Request.id ++ resumes)) ?_ [] h
  intro pre r post taken hr hP
  refine (hP.mark hr).mono (List.Subset.refl _) (.refl _) (.refl _) ?_
  rw [map_append, append_assoc]
  exact perm_middle.subset

theorem windAll {winds : List Request} (hm : Marks Windable Request.wound [] q q' winds) :
    Sound issued q' log unrefs (winds.map Request.id ++ onWay) resumes := by
  refine hm.rule (P := fun q taken => Sound issued q log unrefs (taken.map Request.id ++ onWay) resumes) ?_ [] h
  intro pre r post taken hr hP
  refine (hP.wind hr).mono (List.Subset.refl _) (.refl _) ?_ (List.Subset.refl _)
  rw [map_append, append_assoc]
  exact perm_middle.symm

end

theorem forget (h : Sound issued q log unrefs (ids ++ onWay) resumes)
    (hempty : ∀ r ∈ q, r.id ∈ ids → r.fop.vector = []) : Sound issued q log unrefs onWay resumes :=
  { h with
    nodup := (nodup_append.mp h.nodup).2.1
    sent := fun id hid => h.sent id (mem_append_right _ hid)
    away := by
      intro r hr hw hs hg hv
      refine (mem_append.mp (h.away r hr hw hs hg hv)).resolve_left ?_
      exact fun hmem => hv (hempty r hr hmem) }

theorem push_other (h : Sound issued q log unrefs onWay resumes) (ho : IsOther issued o) :
    Sound issued q log (o :: unrefs) onWay resumes :=
  { h with
    request := by
      intro r hr
      have hval := h.request r hr
      cases hw : r.fop.isWrite with
      | true =>
        refine hval.of_count (count_cons_of_ne ?_)
        rintro rfl
        exact hval.not_isOther hw ho
      | false =>
        refine { hval with refs := fun hw' => ?_, unacked := fun hw' => ?_ } <;>
          · rw [hw] at hw'
            cases hw'
    owed := by
      intro id hid
      rcases mem_cons.mp hid with rfl | hid
      · exact ho.lt
      · exact h.owed id hid }

/-! ## The other steps -/

/-- **A request is put on the queue.** -/
theorem enqueue (h : Sound issued q log unrefs onWay resumes) (fop : Fop) :
    Sound (issued ++ [fop]) (q ++ [.new issued.length fop]) log unrefs onWay resumes := by
  have hnew : (new issued.length fop) ∈ q ++ [.new issued.length fop] :=
    mem_append_right _ mem_cons_self
  have hnotOwed : issued.length ∉ unrefs := fun hmem => Nat.lt_irrefl _ (h.owed _ hmem)
  have hpair : ∀ {R : Request → Request → Prop}, q.Pairwise R → (∀ x ∈ q, R x (.new issued.length fop)) →
      (q ++ [new issued.length fop]).Pairwise R := by
    intro R hR hx
    refine pairwise_append.mpr ⟨hR, pairwise_singleton _ _, ?_⟩
    intro x hxq y hy
    rw [mem_singleton.mp hy]
    exact hx x hxq
  refine
    { request := ?_
      order := hpair h.order ?_
      wound := hpair h.wound (fun _ _ _ hs => nomatch hs)
      marked := hpair h.marked (fun _ _ hm => nomatch hm)
      writes := ?_
      others := ?_
      nodup := h.nodup
      sent := ?_
      away := ?_
      owed := ?_
      next := ?_ }
  · intro x hx
    rcases mem_append.mp hx with hx | hx
    · have hval := h.request x hx
      refine { hval with carried := ?_ }
      intro w hw
      obtain ⟨hle, f, hf, hrest⟩ := hval.carried w hw
      exact ⟨hle, f, issued_keep hf fop, hrest⟩
    rw [mem_singleton.mp hx]
    refine
      { stub := fun _ => rfl
        self := mem_singleton_self _
        carried := ?_
        size := rfl
        reply := nofun
        refs := fun hw => ?_
        unacked := fun _ _ => hnotOwed
        marked := fun hm => nomatch hm }
    · intro w hw
      rw [mem_singleton.mp hw]
      exact ⟨Nat.le_refl _, fop, getElem?_concat_length, rfl, Nat.le_refl _⟩
    show (if fop.isWrite then 2 else 1) = _
    rw [if_pos (show fop.isWrite = true from hw)]
    rfl
  · intro x hx w hw
    obtain ⟨-, f, hf, -⟩ := (h.request x hx).carried w hw
    exact (List.getElem?_eq_some_iff.mp hf).1
  · rintro w ⟨f, hf, hw, hpos⟩
    rcases issued_cases hf with hf | ⟨rfl, rfl⟩
    · refine (h.writes w ⟨f, hf, hw, hpos⟩).imp_right ?_
      rintro ⟨x, hx, hP⟩
      exact ⟨x, mem_append_left _ hx, hP⟩
    · exact .inr ⟨_, hnew, hw, rfl, mem_singleton_self _⟩
  · rintro o ⟨f, hf, ho⟩
    rcases issued_cases hf with hf | ⟨rfl, rfl⟩
    · refine (h.others o ⟨f, hf, ho⟩).imp_right ?_
      rintro ⟨x, hx, hP⟩
      exact ⟨x, mem_append_left _ hx, hP⟩
    · exact .inr ⟨_, hnew, rfl⟩
  · intro id hid
    obtain ⟨x, hx, hP⟩ := h.sent id hid
    exact ⟨x, mem_append_left _ hx, hP⟩
  · intro x hx hxw hxs
    rcases mem_append.mp hx with hx | hx
    · exact h.away x hx hxw hxs
    rw [mem_singleton.mp hx] at hxs
    cases hxs
  · intro id hid
    rw [length_append]
    exact Nat.lt_add_right _ (h.owed id hid)
  intro o ho
  obtain ⟨hother, hans⟩ := h.next o ho
  refine ⟨hother.append fop, ?_⟩
  intro w hlt hwrite
  exact hans w hlt (hwrite.of_append (Nat.lt_trans hlt hother.lt))

/-! ## Steps that go over the whole queue -/

end Sound

/-- The two requests differ in their references and replies only. -/
structure Request.SameShape (a b : Request) : Prop where
  id : b.id = a.id
  fop : b.fop = a.fop
  writeSize : b.writeSize = a.writeSize
  stackWound : b.stackWound = a.stackWound
  markedForResume : b.markedForResume = a.markedForResume
  carried : b.carried = a.carried

namespace Sound

variable {issued : List Fop} {q : List Request} {log : List Event} {unrefs onWay resumes : List Nat}

/-- What a step must show that changes requests, or takes them off the queue, without a change of their shape. -/
structure Update (issued : List Fop) (q : List Request) (log' : List Event) (unrefs' onWay' : List Nat)
    (f : Request → Option Request) : Prop where
  shape : ∀ a b, f a = some b → a.SameShape b
  valid : ∀ r ∈ q, ∀ r', f r = some r' → r'.Valid issued unrefs'
  owed : ∀ id ∈ unrefs', id < issued.length
  -- a write whose request got an answer, or is gone, has been answered
  writes : ∀ r ∈ q, r.fop.isWrite = true → r.gotReply = false →
    (∃ r', f r = some r' ∧ r'.gotReply = false) ∨ ((∀ w ∈ r.carried, Answered log' w) ∧ r.id ∉ onWay')
  others : ∀ r ∈ q, r.fop.isWrite = false → (∃ r', f r = some r') ∨ Event.left r.id ∈ log'
  reply : ∀ r ∈ q, ∀ r', f r = some r' → r'.gotReply = false → r.gotReply = false

theorem update {onWay' : List Nat} {f : Request → Option Request}
    (h : Sound issued q log unrefs onWay resumes) (gone : List Nat) (hu : Update issued q log' unrefs' onWay' f) (hlog : log ⊆ log')
    (honWay : onWay.Perm (gone ++ onWay')) (hgone : ∀ r ∈ q, r.id ∈ gone → ∀ r', f r = some r' → r'.gotReply = true) :
    Sound issued (q.filterMap f) log' unrefs' onWay' resumes := by
  have hmem : ∀ {r r'}, r ∈ q → f r = some r' → r' ∈ q.filterMap f :=
    fun hr hf => mem_filterMap.mpr ⟨_, hr, hf⟩
  refine
    { request := ?_
      order := h.order.filterMap f ?_
      wound := h.wound.filterMap f ?_
      marked := h.marked.filterMap f ?_
      writes := ?_
      others := ?_
      nodup := (nodup_append.mp (honWay.nodup_iff.mp h.nodup)).2.1
      sent := ?_
      away := ?_
      owed := hu.owed
      next := fun o ho => ⟨(h.next o ho).1, fun w hlt hw => ((h.next o ho).2 w hlt hw).mono hlog⟩ }
  · intro r' hr'
    obtain ⟨r, hr, hf⟩ := mem_filterMap.mp hr'
    exact hu.valid r hr r' hf
  · intro a a' hR b hb b' hb' w hw
    rw [(hu.shape a' b' hb').id]
    rw [(hu.shape a b hb).carried] at hw
    exact hR w hw
  · intro a a' hR b hb b' hb'
    have hsa := hu.shape a b hb
    have hsa' := hu.shape a' b' hb'
    rw [hsa.fop, hsa.stackWound, hsa'.fop, hsa'.stackWound]
    exact hR
  · intro a a' hR b hb b' hb'
    rw [(hu.shape a b hb).fop, (hu.shape a' b' hb').markedForResume]
    exact hR
  · intro w hwrite
    rcases h.writes w hwrite with hans | ⟨r, hr, hrw, hrg, hrc⟩
    · exact .inl (hans.mono hlog)
    rcases hu.writes r hr hrw hrg with ⟨r', hf, hg'⟩ | ⟨hans, -⟩
    · have hs := hu.shape r r' hf
      exact .inr ⟨r', hmem hr hf, by rw [hs.fop, hrw], hg', by rw [hs.carried]; exact hrc⟩
    · exact .inl (hans w hrc)
  · intro o ho
    rcases h.others o ho with hleft | ⟨r, hr, rfl⟩
    · exact .inl (hlog hleft)
    have hkind : r.fop.isWrite = false := by
      cases hw : r.fop.isWrite with
      | false => rfl
      | true => exact absurd ho ((h.request r hr).not_isOther hw)
    rcases hu.others r hr hkind with ⟨r', hf⟩ | hleft
    · exact .inr ⟨r', hmem hr hf, (hu.shape r r' hf).id⟩
    · exact .inl hleft
  · intro id hid
    obtain ⟨r, hr, rfl, hrw, hrs, hrg⟩ := h.sent id (honWay.mem_iff.mpr (mem_append_right _ hid))
    rcases hu.writes r hr hrw hrg with ⟨r', hf, hg'⟩ | ⟨-, hnot⟩
    · have hs := hu.shape r r' hf
      exact ⟨r', hmem hr hf, hs.id, by rw [hs.fop, hrw], by rw [hs.stackWound, hrs], hg'⟩
    · exact absurd hid hnot
  intro r' hr' hw hs hg hv
  obtain ⟨r, hr, hf⟩ := mem_filterMap.mp hr'
  have hshape := hu.shape r r' hf
  rw [hshape.fop] at hw hv
  rw [hshape.stackWound] at hs
  rw [hshape.id]
  have haway := h.away r hr hw hs (hu.reply r hr r' hf hg) hv
  refine (mem_append.mp (honWay.mem_iff.mp haway)).resolve_left ?_
  intro hin
  rw [hgone r hr hin r' hf] at hg
  cases hg

/-! ### A reference is given back -/

theorem unref_eq_some (h : a.unref = some b) : 1 < a.refcount ∧ b = { a with refcount := a.refcount - 1 } := by
  rw [Request.unref] at h
  split at h
  · cases h
  next hlt =>
    cases h
    exact ⟨by omega, rfl⟩

theorem unref_cases (h : (if a.id = id then a.unref else some a) = some b) :
    (a.id ≠ id ∧ b = a) ∨ (a.id = id ∧ 1 < a.refcount ∧ b = { a with refcount := a.refcount - 1 }) := by
  by_cases hid : a.id = id
  · rw [if_pos hid] at h
    exact .inr ⟨hid, unref_eq_some h⟩
  rw [if_neg hid] at h
  cases h
  exact .inl ⟨hid, rfl⟩

theorem unref_shape (h : (if a.id = id then a.unref else some a) = some b) : a.SameShape b := by
  rcases unref_cases h with ⟨-, rfl⟩ | ⟨-, -, rfl⟩
  all_goals exact ⟨rfl, rfl, rfl, rfl, rfl, rfl⟩

/-- **`wb_request_unref`**: a write that is not answered stays. -/
theorem unref (h : Sound issued q log (id :: unrefs) onWay resumes) :
    Sound issued (unrefIn id q) (if leaves id q then .left id :: log else log) unrefs onWay resumes := by
  have hlog : log ⊆ (if leaves id q then .left id :: log else log) := by
    split
    · exact subset_cons_self _ _
    · exact (List.Subset.refl _)
  refine h.update [] ?_ hlog (.refl _) (fun r _ hr => nomatch hr)
  refine
    { shape := fun a b hab => unref_shape hab
      valid := ?_
      owed := fun id' hid' => h.owed id' (mem_cons_of_mem _ hid')
      writes := ?_
      others := ?_
      reply := ?_ }
  · intro r hr r' hf
    have hval := h.request r hr
    rcases unref_cases hf with ⟨hne, rfl⟩ | ⟨rfl, hlt, rfl⟩
    · exact hval.of_count (count_cons_of_ne (Ne.symm hne)).symm
    refine { hval with refs := ?_, unacked := ?_ }
    · intro hw
      have hrefs := hval.refs hw
      cases hb : r.writeBehind with
      | false => exact absurd mem_cons_self (hval.unacked hw hb)
      | true =>
        rw [hb, if_pos rfl, count_cons_self] at hrefs
        show r.refcount - 1 = (if r.gotReply then 0 else 1) + unrefs.count r.id
        omega
    intro hw hb
    exact absurd mem_cons_self (hval.unacked hw hb)
  · intro r hr hw hg
    refine .inl ?_
    by_cases hid : r.id = id
    · -- one reference is for the child's answer, and at least one for this unref
      subst hid
      have hval := h.request r hr
      have hrefs := hval.refs hw
      have hlt : ¬ r.refcount ≤ 1 := by
        cases hb : r.writeBehind with
        | false => exact absurd mem_cons_self (hval.unacked hw hb)
        | true =>
          rw [hb, hg, if_pos rfl, count_cons_self] at hrefs
          simp only [Bool.false_eq_true, if_false] at hrefs
          omega
      exact ⟨{ r with refcount := r.refcount - 1 }, by rw [if_pos rfl, Request.unref, if_neg hlt], hg⟩
    · exact ⟨r, if_neg hid, hg⟩
  · intro r hr hw
    by_cases hid : r.id = id
    · by_cases hle : r.refcount ≤ 1
      · have hleaves : leaves id q = true := by
          refine any_eq_true.mpr ⟨r, hr, ?_⟩
          simp [hid, hw, hle]
        rw [if_pos hleaves, hid]
        exact .inr mem_cons_self
      · exact .inl ⟨_, by rw [if_pos hid, Request.unref, if_neg hle]⟩
    · exact .inl ⟨r, if_neg hid⟩
  intro r hr r' hf hg
  rcases unref_cases hf with ⟨-, rfl⟩ | ⟨-, -, rfl⟩
  · exact hg
  · exact hg

/-! ### An operation is about to be resumed -/

theorem detach_cases (o : Nat) (a : Request) :
    (a.id = o ∧ a.detach o = { a with stub := false }) ∨ (a.id ≠ o ∧ a.detach o = a) := by
  by_cases hid : a.id = o
  · exact .inl ⟨hid, if_pos hid⟩
  · exact .inr ⟨hid, if_neg hid⟩

theorem detach_shape (o : Nat) (a : Request) : a.SameShape (a.detach o) := by
  rcases detach_cases o a with ⟨-, heq⟩ | ⟨-, heq⟩ <;>
    · rw [heq]
      exact ⟨rfl, rfl, rfl, rfl, rfl, rfl⟩

/-- **`request->stub = NULL`** for an operation that is no write. -/
theorem detach (h : Sound issued q log unrefs onWay resumes) (ho : IsOther issued o) :
    Sound issued (q.map (Request.detach o)) log unrefs onWay resumes := by
  rw [← filterMap_eq_map]
  refine h.update [] ?_ (List.Subset.refl _) (.refl _) (fun r _ hr => nomatch hr)
  refine
    { shape := ?_
      valid := ?_
      owed := h.owed
      writes := ?_
      others := fun r _ _ => .inl ⟨_, rfl⟩
      reply := ?_ }
  · intro a b hab
    cases hab
    exact detach_shape o a
  · intro r hr r' hf
    cases hf
    have hval := h.request r hr
    rcases detach_cases o r with ⟨rfl, heq⟩ | ⟨-, heq⟩
    · rw [heq]
      exact { hval with stub := fun hw => absurd ho (hval.not_isOther hw) }
    rw [heq]
    exact hval
  · intro r _ _ hg
    refine .inl ⟨_, rfl, ?_⟩
    rcases detach_cases o r with ⟨-, heq⟩ | ⟨-, heq⟩ <;>
      · rw [heq]
        exact hg
  intro r _ r' hf hg
  cases hf
  rcases detach_cases o r with ⟨-, heq⟩ | ⟨-, heq⟩ <;>
    · rw [heq] at hg
      exact hg

/-! ### The child answers -/

/-- What `wb_sync_cbk` leaves of a request. -/
theorem replied_cases (h : a.replied opRet opErrno = some b) :
    1 < a.refcount ∧ a.SameShape b ∧ b.gotReply = true ∧ b.refcount = a.refcount - 1 ∧ b.stub = a.stub ∧
      b.writeBehind = a.writeBehind := by
  unfold Request.replied at h
  split at h
  all_goals
    obtain ⟨hlt, rfl⟩ := unref_eq_some h
    exact ⟨hlt, ⟨rfl, rfl, rfl, rfl, rfl, rfl⟩, rfl, rfl, rfl, rfl⟩

theorem answered_cases (h : (if a.id ∈ ids then a.replied opRet opErrno else some a) = some b) :
    (a.id ∈ ids ∧ a.replied opRet opErrno = some b) ∨ (a.id ∉ ids ∧ b = a) := by
  by_cases hid : a.id ∈ ids
  · rw [if_pos hid] at h
    exact .inl ⟨hid, h⟩
  rw [if_neg hid] at h
  cases h
  exact .inr ⟨hid, rfl⟩

theorem answered_shape (h : (if a.id ∈ ids then a.replied opRet opErrno else some a) = some b) : a.SameShape b := by
  rcases answered_cases h with ⟨-, h⟩ | ⟨-, rfl⟩
  · exact (replied_cases h).2.1
  · exact ⟨rfl, rfl, rfl, rfl, rfl, rfl⟩

/-- **`wb_sync_cbk`**: the writes that were sent are answered. -/
theorem replied (h : Sound issued q log unrefs (ids ++ onWay) resumes) (size : Nat) (opRet opErrno : Int) :
    Sound issued (q.filterMap fun r => if r.id ∈ ids then r.replied opRet opErrno else some r)
      (.answered (carriedBy ids q) size opRet :: log) unrefs onWay resumes := by
  -- the requests of the child write are wound writes without an answer
  have hsent : ∀ r ∈ q, r.id ∈ ids → r.fop.isWrite = true ∧ r.stackWound = true ∧ r.gotReply = false := by
    intro r hr hid
    obtain ⟨x, hx, hxid, hP⟩ := h.sent r.id (mem_append_left _ hid)
    rw [← h.unique hx hr hxid]
    exact hP
  refine h.update ids ?_ (subset_cons_self _ _) (.refl _) ?_
  · refine
      { shape := fun a b hab => answered_shape hab
        valid := ?_
        owed := h.owed
        writes := ?_
        others := ?_
        reply := ?_ }
    · intro r hr r' hf
      have hval := h.request r hr
      rcases answered_cases hf with ⟨hid, hf⟩ | ⟨-, rfl⟩
      · obtain ⟨hlt, hs, hg', href, hstub, hbeh⟩ := replied_cases hf
        obtain ⟨hw, hwound, hg⟩ := hsent r hr hid
        refine
          { stub := ?_
            self := ?_
            carried := ?_
            size := by rw [hs.writeSize, hs.fop, hval.size]
            reply := fun _ => by rw [hs.stackWound, hwound]
            refs := ?_
            unacked := ?_
            marked := ?_ }
        · rw [hs.fop, hstub]
          exact hval.stub
        · rw [hs.id, hs.carried]
          exact hval.self
        · rw [hs.id, hs.carried, hs.fop, hs.writeSize]
          exact hval.carried
        · intro _
          have hrefs := hval.refs hw
          rw [hg] at hrefs
          rw [href, hg', hbeh, hs.id]
          simp only [Bool.false_eq_true, if_false] at hrefs
          rw [if_pos rfl]
          omega
        · rw [hs.fop, hbeh, hs.id]
          exact hval.unacked
        rw [hs.markedForResume, hs.fop]
        exact hval.marked
      · exact hval
    · intro r hr hw hg
      by_cases hid : r.id ∈ ids
      · refine .inr ⟨?_, ?_⟩
        · intro w hwc
          refine ⟨_, size, opRet, mem_cons_self, ?_⟩
          exact mem_flatMap.mpr ⟨r, mem_filter.mpr ⟨hr, by simpa using hid⟩, hwc⟩
        intro hon
        exact (nodup_append.mp h.nodup).2.2 r.id hid r.id hon rfl
      · exact .inl ⟨r, if_neg hid, hg⟩
    · intro r hr hw
      refine .inl ⟨r, if_neg ?_⟩
      intro hid
      rw [(hsent r hr hid).1] at hw
      cases hw
    intro r hr r' hf hg
    rcases answered_cases hf with ⟨-, hf⟩ | ⟨-, rfl⟩
    · rw [(replied_cases hf).2.2.1] at hg
      cases hg
    · exact hg
  intro r hr hid r' hf
  rcases answered_cases hf with ⟨-, hf⟩ | ⟨hnot, -⟩
  · exact (replied_cases hf).2.2.1
  · exact absurd hid hnot

end Sound

end GlusterFS.WriteBehind
