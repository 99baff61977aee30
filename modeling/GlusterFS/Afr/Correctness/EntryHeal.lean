import GlusterFS.Afr.Correctness.EntryPasses

/-!
# `Afr.Correctness.EntryHeal` — an entry self-heal makes the directories equal

If no answer is an error, a heal with a source leaves every sink with the names of the source, and one without
leaves every child with the names any of them had.

The invariant of the first loop is `Covered`: a name that has been read is there on each sink, or a call for it is
still out that ends with its creation. A symbolic link with another target is unlinked and made anew, so "it is
there" alone would not do. The second loop keeps what the first has done, because it removes only names the
source answered `ENOENT` for.
-/

namespace GlusterFS.Afr.EntryHeal

open GlusterFS.Storage List Listing.Table
open Transition
open Function (update_of_ne update_self)

variable {n : Nat} {cfg : Config n} {s s' : State n} {dirs₀ dirs : Fin n → Dir}

/-! ## What a call for a new entry does -/

/-- The calls that come before the creation, and the creation. -/
def Impunge.creates : Impunge → Bool
  | .xattrop => false
  | .setattr => false
  | _ => true

/-- A successful answer for child `i` in frame `fr`. -/
structure ImpungeSpec (fr : ImpungeFrame n) (i : Fin n) (call : Impunge) (dirs : Fin n → Dir) (r : Impunged n) :
    Prop where
  /-- the other children are left alone -/
  others : ∀ j, j ≠ i → r.dirs j = dirs j
  /-- nothing but the entry is created -/
  fresh : ∀ x, (r.dirs i).Has x → (dirs i).Has x ∨ x = fr.name
  /-- nothing is removed but what will be created again -/
  kept : ∀ x, (dirs i).Has x → (r.dirs i).Has x ∨ x = fr.name ∧ ∃ c, r.next = some c ∧ c.creates = true
  /-- the calls end with the entry in the directory -/
  there : call.creates = true → (r.dirs i).Has fr.name ∨ ∃ c, r.next = some c ∧ c.creates = true

namespace ImpungeSpec

variable {fr : ImpungeFrame n} {i src : Fin n} {call next : Impunge} {ok : Bool} {pos : Nat} {content : Content}

theorem goesOn {linkname : String} (hnext : next.creates = true) :
    ImpungeSpec fr i call dirs ⟨dirs, linkname, some next, ok⟩ :=
  ⟨fun _ _ => rfl, fun _ h => .inl h, fun _ h => .inl h, fun _ => .inr ⟨next, rfl, hnext⟩⟩

theorem out (hthere : call.creates = true → (dirs i).Has fr.name) :
    ImpungeSpec fr i call dirs (impungeOut fr dirs ok) :=
  ⟨fun _ _ => rfl, fun _ h => .inl h, fun _ h => .inl h, fun h => .inl (hthere h)⟩

theorem newfile (hok : (impungeNewfileCbk i fr dirs content ok pos).ok = true) :
    ImpungeSpec fr i call dirs (impungeNewfileCbk i fr dirs content ok pos) := by
  unfold impungeNewfileCbk at hok ⊢
  split at hok
  · cases hok
  · rename_i hnew
    rw [if_neg hnew]
    refine ⟨fun j hj => update_of_ne hj _ _, ?_, ?_, ?_⟩
    · intro x hx
      simp only [update_self, has_put] at hx
      exact hx.symm
    · intro x hx
      left
      simp only [update_self, has_put]
      exact .inr hx
    intro _
    left
    simp only [update_self, has_put, true_or]

theorem entryCbk (hok : (impungeEntryCbk i fr dirs ok).ok = true) :
    ImpungeSpec fr i .lookup dirs (impungeEntryCbk i fr dirs ok) := by
  unfold impungeEntryCbk at hok ⊢
  split
  · exact goesOn rfl
  · rename_i hlink
    rw [if_neg hlink] at hok
    split
    · rename_i hnot
      rw [if_pos hnot] at hok
      cases hok
    split
    · rename_i hhas
      exact out fun _ => hhas
    · exact goesOn rfl

theorem recreateLookupCbk (hok : (impungeRecreateLookupCbk src fr dirs ok).ok = true) :
    ImpungeSpec fr i .lookupSource dirs (impungeRecreateLookupCbk src fr dirs ok) := by
  unfold impungeRecreateLookupCbk at hok ⊢
  split at hok
  · cases hok
  · rename_i hnot
    rw [if_neg hnot]
    split at hok
    · cases hok
    split at hok
    case h_8 => cases hok
    all_goals exact goesOn rfl

theorem readlinkCbk (hok : (impungeReadlinkCbk src fr dirs ok).ok = true) :
    ImpungeSpec fr i .readlink dirs (impungeReadlinkCbk src fr dirs ok) := by
  unfold impungeReadlinkCbk at hok ⊢
  split at hok
  · cases hok
  · rename_i hnot
    rw [if_neg hnot]
    split at hok
    · exact goesOn rfl
    · cases hok

theorem readlinkSinkCbk (hok : (impungeReadlinkSinkCbk i fr dirs ok).ok = true) :
    ImpungeSpec fr i .readlinkSink dirs (impungeReadlinkSinkCbk i fr dirs ok) := by
  unfold impungeReadlinkSinkCbk at hok ⊢
  split at hok
  · cases hok
  · rename_i hnot
    rw [if_neg hnot]
    split at hok
    · exact goesOn rfl
    · rename_i target hfind
      split
      · exact out fun _ => has_of_find? hfind
      · exact goesOn rfl
    · cases hok

theorem symlinkUnlinkCbk (hok : (impungeSymlinkUnlinkCbk i fr dirs ok).ok = true) :
    ImpungeSpec fr i .unlink dirs (impungeSymlinkUnlinkCbk i fr dirs ok) := by
  unfold impungeSymlinkUnlinkCbk at hok ⊢
  split at hok
  · cases hok
  · rename_i hnot
    rw [if_neg hnot]
    refine ⟨fun j hj => update_of_ne hj _ _, ?_, ?_, fun _ => .inr ⟨_, rfl, rfl⟩⟩
    · intro x hx
      simp only [update_self, has_erase] at hx
      exact .inl hx.2
    intro x hx
    simp only [update_self, has_erase]
    by_cases hname : x = fr.name
    · exact .inr ⟨hname, _, rfl, rfl⟩
    · exact .inl ⟨hname, hx⟩

end ImpungeSpec

variable {call : Impunge} {fr : ImpungeFrame n}

theorem impungeCall_spec {src i : Fin n} {ok : Bool} {pos : Nat}
    (hok : (impungeCall src i fr dirs ok pos call).ok = true) :
    ImpungeSpec fr i call dirs (impungeCall src i fr dirs ok pos call) := by
  cases call with
  | lookup => exact .entryCbk hok
  | lookupSource => exact .recreateLookupCbk hok
  | mknod content => exact .newfile hok
  | mkdir content => exact .newfile hok
  | readlink => exact .readlinkCbk hok
  | readlinkSink => exact .readlinkSinkCbk hok
  | unlink => exact .symlinkUnlinkCbk hok
  | symlink linkname => exact .newfile hok
  | xattrop => exact ⟨fun _ _ => rfl, fun _ h => .inl h, fun _ h => .inl h, nofun⟩
  | setattr => exact .out nofun

/-! ## The first loop -/

/-- A call is out that ends with the creation of `x` on child `j`. -/
def Out (frames : List (ImpungeFrame n)) (x : String) (j : Fin n) : Prop :=
  ∃ (f : Nat) (fr : ImpungeFrame n) (call : Impunge), frames[f]? = some fr ∧ fr.name = x ∧ fr.calls j = some call ∧ call.creates = true

/-- The name is there, or will be. -/
def Covered (dirs : Fin n → Dir) (frames : List (ImpungeFrame n)) (x : String) (j : Fin n) : Prop :=
  (dirs j).Has x ∨ Out frames x j

variable {frames : List (ImpungeFrame n)} {r : Impunged n}

theorem Covered.has {x : String} {j : Fin n} (h : Covered dirs frames x j)
    (hnone : ∀ fr ∈ frames, fr.calls j = none) : (dirs j).Has x := by
  rcases h with h | ⟨f, fr, call, hf, -, hcall, -⟩
  · exact h
  rw [hnone fr (mem_of_getElem? hf)] at hcall
  cases hcall

theorem Covered.answered {f : Nat} {i : Fin n} (hf : frames[f]? = some fr) (hcall : fr.calls i = some call)
    (hr : ImpungeSpec fr i call dirs r) {x : String} {j : Fin n} (h : Covered dirs frames x j) :
    Covered r.dirs (frames.set f (fr.answered i r)) x j := by
  obtain ⟨hlt, -⟩ := List.getElem?_eq_some_iff.mp hf
  have hself : (frames.set f (fr.answered i r))[f]? = some (fr.answered i r) := List.getElem?_set_self hlt
  -- the call that follows for child `i` in the frame
  have hnext : ∀ c, r.next = some c → c.creates = true → Out (frames.set f (fr.answered i r)) fr.name i := by
    intro c hc hcreates
    exact ⟨f, _, c, hself, rfl, (fr.answered_self i r).trans hc, hcreates⟩
  by_cases hji : j = i
  · subst hji
    rcases h with h | ⟨g, gr, gcall, hg, rfl, hgcall, hcreates⟩
    · rcases hr.kept x h with h | ⟨rfl, c, hc, hcreates⟩
      · exact .inl h
      · exact .inr (hnext c hc hcreates)
    by_cases hgf : g = f
    · subst hgf
      obtain rfl : fr = gr := Option.some.inj (hf.symm.trans hg)
      obtain rfl : call = gcall := Option.some.inj (hcall.symm.trans hgcall)
      rcases hr.there hcreates with h | ⟨c, hc, hcreates⟩
      · exact .inl h
      · exact .inr (hnext c hc hcreates)
    refine .inr ⟨g, gr, gcall, ?_, rfl, hgcall, hcreates⟩
    rw [List.getElem?_set_ne (Ne.symm hgf)]
    exact hg
  rcases h with h | ⟨g, gr, gcall, hg, rfl, hgcall, hcreates⟩
  · left
    rw [hr.others j hji]
    exact h
  right
  by_cases hgf : g = f
  · subst hgf
    obtain rfl : fr = gr := Option.some.inj (hf.symm.trans hg)
    exact ⟨g, _, gcall, hself, rfl, (fr.answered_ne hji r).trans hgcall, hcreates⟩
  refine ⟨g, gr, gcall, ?_, rfl, hgcall, hcreates⟩
  rw [List.getElem?_set_ne (Ne.symm hgf)]
  exact hg

/-- A name that some child entries are read from had. -/
def Known (cfg : Config n) (dirs₀ : Fin n → Dir) (x : String) : Prop := ∃ c, Scans cfg c ∧ (dirs₀ c).Has x

structure Merging (cfg : Config n) (dirs₀ dirs : Fin n → Dir) (log : List (Answer n))
    (frames : List (ImpungeFrame n)) : Prop where
  /-- the names of the directories that have been read are everywhere -/
  scanned : ∀ c, Answer.readdir .impunge c .complete ∈ log → ∀ x, (dirs₀ c).Has x → cfg.skipped x = false →
    ∀ j, cfg.sink j = true → Covered dirs frames x j
  /-- nothing is lost -/
  kept : ∀ j x, (dirs₀ j).Has x → Covered dirs frames x j
  /-- nothing is made up -/
  known : ∀ j x, (dirs j).Has x → (dirs₀ j).Has x ∨ Known cfg dirs₀ x
  /-- only sinks are changed -/
  others : ∀ j, cfg.sink j = false → dirs j = dirs₀ j
  frames : ∀ fr ∈ frames, Known cfg dirs₀ fr.name
  /-- nothing has been removed -/
  before : ∀ c r, Answer.readdir .expunge c r ∉ log

/-- What has been read of the directory of `src` is covered on the other sinks. -/
def Visited (cfg : Config n) (dirs : Fin n → Dir) (frames : List (ImpungeFrame n)) (src : Fin n) (off : Nat) : Prop :=
  ∀ e ∈ (dirs src).slots, e.pos < off → cfg.skipped e.key = false → ∀ j, cfg.target src j = true →
    Covered dirs frames e.key j

theorem target_sink {src j : Fin n} (h : cfg.target src j = true) : j ≠ src ∧ cfg.sink j = true := by
  simpa [Config.target] using h

variable {log : List (Answer n)} {off : Nat} {src : Fin n}

theorem Merging.settle (h : Merging cfg dirs₀ dirs log frames) (hnone : ∀ fr ∈ frames, ∀ j, fr.calls j = none) :
    Merging cfg dirs₀ dirs log [] := { h with
  scanned := fun c hc x hx hskip j hj => .inl ((h.scanned c hc x hx hskip j hj).has fun fr hfr => hnone fr hfr j)
  kept := fun j x hx => .inl ((h.kept j x hx).has fun fr hfr => hnone fr hfr j)
  frames := fun _ hfr => absurd hfr not_mem_nil }

theorem Visited.settle (h : Visited cfg dirs frames src off) (hnone : ∀ fr ∈ frames, ∀ j, fr.calls j = none) :
    Visited cfg dirs [] src off :=
  fun e he hlt hskip j hj => .inl ((h e he hlt hskip j hj).has fun fr hfr => hnone fr hfr j)

/-- An answer that is no `readdir` of the second loop and not the end of one of the first is kept. -/
theorem Merging.heard {a : Answer n}
    (h : Merging cfg dirs₀ dirs log frames) (hcomplete : ∀ c, a ≠ .readdir .impunge c .complete)
    (hexpunge : ∀ c r, a ≠ .readdir .expunge c r) : Merging cfg dirs₀ dirs (a :: log) frames := { h with
  scanned := by
    intro c hc
    rcases mem_cons.mp hc with heq | hc
    · exact absurd heq.symm (hcomplete c)
    · exact h.scanned c hc
  before := by
    intro c r hc
    rcases mem_cons.mp hc with heq | hc
    · exact hexpunge c r heq.symm
    · exact h.before c r hc }

theorem Merging.batch {off count : Nat} (h : Merging cfg dirs₀ dirs log []) (hsrc : Scans cfg src) :
    Merging cfg dirs₀ dirs log (((dirs src).readFrom off count).filterMap (impungeEntry cfg src)) := { h with
  scanned := fun c hc x hx hskip j hj =>
    .inl ((h.scanned c hc x hx hskip j hj).has fun _ hfr => absurd hfr not_mem_nil)
  kept := fun j x hx => .inl ((h.kept j x hx).has fun _ hfr => absurd hfr not_mem_nil)
  frames := by
    intro fr hfr
    obtain ⟨e, he, heq⟩ := mem_filterMap.mp hfr
    unfold impungeEntry at heq
    split at heq
    · cases heq
    cases heq
    rcases h.known src _ ⟨e, (mem_filter.mp (mem_of_mem_take he)).1, rfl⟩ with hknown | hknown
    · exact ⟨src, hsrc, hknown⟩
    · exact hknown }

theorem Visited.batch (h : Visited cfg dirs [] src off) (count : Nat) :
    Visited cfg dirs (((dirs src).readFrom off count).filterMap (impungeEntry cfg src)) src
      (Listing.nextOffset off ((dirs src).readFrom off count)) := by
  intro e he hlt hskip j hj
  rcases taken_or_ahead he hlt with hlt | htaken
  · exact .inl ((h e he hlt hskip j hj).has fun _ hfr => absurd hfr not_mem_nil)
  -- the entry was read just now, and the lookup on `j` is out
  have hentry : impungeEntry cfg src e = some
      { name := e.key
        isLink := decide (e.val.type = .lnk)
        linkname := ""
        callCount := (List.finRange n).countP (cfg.target src)
        calls := fun i => if cfg.target src i then some .lookup else none } := by
    unfold impungeEntry
    rw [hskip]
    rfl
  obtain ⟨f, hf⟩ := mem_iff_getElem?.mp (mem_filterMap.mpr ⟨e, htaken, hentry⟩)
  exact .inr ⟨f, _, .lookup, hf, rfl, if_pos hj, rfl⟩

theorem Merging.answered {f : Nat} {i : Fin n} (h : Merging cfg dirs₀ dirs log frames)
    (hf : frames[f]? = some fr) (hcall : fr.calls i = some call) (hsink : cfg.sink i = true)
    (hr : ImpungeSpec fr i call dirs r) : Merging cfg dirs₀ r.dirs log (frames.set f (fr.answered i r)) where
  scanned := fun c hc x hx hskip j hj => (h.scanned c hc x hx hskip j hj).answered hf hcall hr
  kept := fun j x hx => (h.kept j x hx).answered hf hcall hr
  known := by
    intro j x hx
    by_cases hji : j = i
    · subst hji
      rcases hr.fresh x hx with hx | rfl
      · exact h.known j x hx
      · exact .inr (h.frames fr (mem_of_getElem? hf))
    rw [hr.others j hji] at hx
    exact h.known j x hx
  others := by
    intro j hj
    have hji : j ≠ i := by
      rintro rfl
      rw [hj] at hsink
      cases hsink
    rw [hr.others j hji]
    exact h.others j hj
  frames := by
    intro g hg
    rcases mem_or_eq_of_mem_set hg with hg | rfl
    · exact h.frames g hg
    · exact h.frames fr (mem_of_getElem? hf)
  before := h.before

theorem Visited.answered {f off : Nat} {i src : Fin n} (h : Visited cfg dirs frames src off) (hf : frames[f]? = some fr)
    (hcall : fr.calls i = some call) (hsrc : src ≠ i) (hr : ImpungeSpec fr i call dirs r) :
    Visited cfg r.dirs (frames.set f (fr.answered i r)) src off := by
  intro e he hlt hskip j hj
  rw [hr.others src hsrc] at he
  exact (h e he hlt hskip j hj).answered hf hcall hr

theorem Merging.complete (h : Merging cfg dirs₀ dirs log [])
    (hvisited : Visited cfg dirs [] src off) (hend : ∀ e ∈ (dirs src).slots, e.pos < off) :
    Merging cfg dirs₀ dirs (.readdir .impunge src .complete :: log) [] := { h with
  scanned := by
    intro c hc x hx hskip j hj
    rcases mem_cons.mp hc with heq | hc
    · cases heq
      obtain ⟨e, he, rfl⟩ := (h.kept src x hx).has fun _ hfr => absurd hfr not_mem_nil
      by_cases hji : j = src
      · rw [hji]
        exact .inl ⟨e, he, rfl⟩
      · exact hvisited e he (hend e he) hskip j (by simp [Config.target, hji, hj])
    · exact h.scanned c hc x hx hskip j hj
  before := by
    intro c r hc
    rcases mem_cons.mp hc with heq | hc
    · cases heq
    · exact h.before c r hc }

/-! ## What a call for an entry to remove does -/

/-- A successful answer about the entry `name` of the sink. -/
structure ExpungeSpec (cfg : Config n) (src sink : Fin n) (name : String) (call : Expunge) (dirs : Fin n → Dir)
    (r : Expunged n) : Prop where
  others : ∀ j, j ≠ sink → r.dirs j = dirs j
  /-- nothing but the trash directory is created -/
  fresh : ∀ e ∈ (r.dirs sink).slots, e ∈ (dirs sink).slots ∨ cfg.skipped e.key = true
  /-- only the entry is removed, and not before the source was asked -/
  kept : ∀ x, (dirs sink).Has x → (r.dirs sink).Has x ∨ x = name ∧ call ≠ .lookupSource
  /-- the source decides at the first call -/
  asked : call = .lookupSource → ∀ c, r.next = some c → ¬ (dirs src).Has name
  /-- the calls end with the entry on the source or gone from the sink -/
  gone : call ≠ .setattr → (dirs src).Has name ∨ ¬ (r.dirs sink).Has name ∨ ∃ c, r.next = some c ∧ c ≠ .setattr

namespace ExpungeSpec

variable {src sink : Fin n} {name : String} {call next : Expunge} {trash : Fin n → Bool} {ok cached : Bool} {pos : Nat}

theorem goesOn {trash' : Fin n → Bool} (hcall : call ≠ .lookupSource) (hnext : next ≠ .setattr) :
    ExpungeSpec cfg src sink name call dirs ⟨dirs, trash', some next, ok⟩ :=
  ⟨fun _ _ => rfl, fun _ h => .inl h, fun _ h => .inl h, fun h => absurd h hcall,
    fun _ => .inr (.inr ⟨next, rfl, hnext⟩)⟩

theorem entryCbk (hok : (expungeEntryCbk src name dirs trash ok).ok = true) :
    ExpungeSpec cfg src sink name .lookupSource dirs (expungeEntryCbk src name dirs trash ok) := by
  unfold expungeEntryCbk at hok ⊢
  split at hok
  · cases hok
  · rename_i hnot
    rw [if_neg hnot]
    split
    · rename_i hhas
      exact ⟨fun _ _ => rfl, fun _ h => .inl h, fun _ h => .inl h, nofun, fun _ => .inl hhas⟩
    · rename_i hhas
      exact ⟨fun _ _ => rfl, fun _ h => .inl h, fun _ h => .inl h, fun _ _ _ => hhas,
        fun _ => .inr (.inr ⟨.lookup, rfl, by decide⟩)⟩

theorem lookupCbk (hok : (expungeLookupCbk sink name dirs trash ok cached).ok = true) :
    ExpungeSpec cfg src sink name .lookup dirs (expungeLookupCbk sink name dirs trash ok cached) := by
  unfold expungeLookupCbk at hok ⊢
  split at hok
  · cases hok
  · rename_i hnot
    rw [if_neg hnot]
    split at hok
    · cases hok
    · cases hok
    apply goesOn (by decide)
    split <;> decide

theorem lookupTrashCbk (hok : (expungeLookupTrashCbk cfg sink dirs trash ok).ok = true) :
    ExpungeSpec cfg src sink name .lookupTrash dirs (expungeLookupTrashCbk cfg sink dirs trash ok) := by
  unfold expungeLookupTrashCbk at hok ⊢
  split at hok
  · cases hok
  · rename_i hnot
    rw [if_neg hnot]
    split
    all_goals exact goesOn (by decide) (by decide)

theorem mkdirCbk (hok : (expungeMkdirCbk cfg sink dirs trash ok pos).ok = true) :
    ExpungeSpec cfg src sink name .mkdirTrash dirs (expungeMkdirCbk cfg sink dirs trash ok pos) := by
  unfold expungeMkdirCbk at hok ⊢
  split at hok
  · cases hok
  · rename_i hnot
    rw [if_neg hnot]
    split
    · rename_i hroot
      refine ⟨fun j hj => update_of_ne hj _ _, ?_, ?_, nofun,
        fun _ => .inr (.inr ⟨.rename, rfl, by decide⟩)⟩
      · intro e he
        simp only [update_self] at he
        rcases mem_put he with hkey | he
        · right
          simp [Config.skipped, hroot, hkey]
        · exact .inl he
      intro x hx
      left
      simp only [update_self, has_put]
      exact .inr hx
    · exact goesOn (by decide) (by decide)

theorem renameCbk (hok : (expungeRenameCbk cfg sink name dirs trash ok).ok = true) :
    ExpungeSpec cfg src sink name .rename dirs (expungeRenameCbk cfg sink name dirs trash ok) := by
  unfold expungeRenameCbk at hok ⊢
  split at hok
  · rename_i hdone
    rw [if_pos hdone]
    refine ⟨fun j hj => update_of_ne hj _ _, ?_, ?_, nofun, ?_⟩
    · intro e he
      simp only [update_self] at he
      exact .inl (mem_filter.mp he).1
    · intro x hx
      simp only [update_self, has_erase]
      by_cases hname : x = name
      · exact .inr ⟨hname, by decide⟩
      · exact .inl ⟨hname, hx⟩
    intro _
    right
    left
    simp only [update_self, has_erase]
    exact fun h => h.1 rfl
  · cases hok

end ExpungeSpec

theorem expungeCall_spec {src sink : Fin n} {name : String} {trash : Fin n → Bool} {ok cached : Bool} {pos : Nat}
    {call : Expunge} (hok : (expungeCall cfg src sink name dirs trash ok cached pos call).ok = true) :
    ExpungeSpec cfg src sink name call dirs (expungeCall cfg src sink name dirs trash ok cached pos call) := by
  cases call with
  | lookupSource => exact .entryCbk hok
  | lookup => exact .lookupCbk hok
  | lookupTrash => exact .lookupTrashCbk hok
  | mkdirTrash => exact .mkdirCbk hok
  | rename => exact .renameCbk hok
  | setattr =>
    exact ⟨fun _ _ => rfl, fun _ h => .inl h, fun _ h => .inl h, nofun, fun h => absurd rfl h⟩

/-! ## The second loop -/

structure Clearing (cfg : Config n) (dirs₀ dirs : Fin n → Dir) (log : List (Answer n)) (src : Fin n)
    (frames : List ExpungeFrame) : Prop where
  /-- the names of the source are everywhere -/
  present : Answer.readdir .impunge src .complete ∈ log → ∀ x, (dirs₀ src).Has x → cfg.skipped x = false →
    ∀ j, cfg.sink j = true → (dirs j).Has x
  others : ∀ j, cfg.sink j = false → dirs j = dirs₀ j
  /-- a sink that has been read has no other names -/
  cleared : ∀ c, Answer.readdir .expunge c .complete ∈ log → ∀ x, (dirs c).Has x → cfg.skipped x = false →
    (dirs₀ src).Has x
  frames : ∀ fr ∈ frames, ∀ call, fr.call = some call → call ≠ .lookupSource → ¬ (dirs₀ src).Has fr.name

/-- What has been read of the directory of the sink is on the source, or on its way out. -/
def Inspected (cfg : Config n) (dirs₀ dirs : Fin n → Dir) (src sink : Fin n) (off : Nat)
    (frames : List ExpungeFrame) : Prop :=
  ∀ e ∈ (dirs sink).slots, e.pos < off → cfg.skipped e.key = false → (dirs₀ src).Has e.key ∨
    ∃ (f : Nat) (call : Expunge), frames[f]? = some ⟨e.key, some call⟩ ∧ call ≠ .setattr

section

variable {log : List (Answer n)} {src sink : Fin n} {off f : Nat} {frames : List ExpungeFrame} {name : String}
  {call : Expunge} {r : Expunged n}

theorem Clearing.heard {a : Answer n} (h : Clearing cfg dirs₀ dirs log src frames)
    (hcomplete : ∀ pass c, a ≠ .readdir pass c .complete) : Clearing cfg dirs₀ dirs (a :: log) src frames := { h with
  present := by
    intro hc
    rcases mem_cons.mp hc with heq | hc
    · exact absurd heq.symm (hcomplete _ _)
    · exact h.present hc
  cleared := by
    intro c hc
    rcases mem_cons.mp hc with heq | hc
    · exact absurd heq.symm (hcomplete _ _)
    · exact h.cleared c hc }

theorem Clearing.settle (h : Clearing cfg dirs₀ dirs log src frames) : Clearing cfg dirs₀ dirs log src [] :=
  ⟨h.present, h.others, h.cleared, fun _ hfr => absurd hfr not_mem_nil⟩

theorem Inspected.settle (h : Inspected cfg dirs₀ dirs src sink off frames) (hnone : ∀ fr ∈ frames, fr.call = none) :
    Inspected cfg dirs₀ dirs src sink off [] := by
  intro e he hlt hskip
  rcases h e he hlt hskip with h | ⟨g, c, hg, -⟩
  · exact .inl h
  have := hnone _ (mem_of_getElem? hg)
  cases this

theorem Clearing.batch (h : Clearing cfg dirs₀ dirs log src []) (entries : List (Listing.Slot String Content)) :
    Clearing cfg dirs₀ dirs log src (entries.filterMap (expungeEntry cfg)) := { h with
  frames := by
    intro fr hfr c hc hne
    obtain ⟨e, -, heq⟩ := mem_filterMap.mp hfr
    unfold expungeEntry at heq
    split at heq
    · cases heq
    cases heq
    exact absurd (Option.some.inj hc).symm hne }

theorem Inspected.batch (h : Inspected cfg dirs₀ dirs src sink off []) (count : Nat) :
    Inspected cfg dirs₀ dirs src sink (Listing.nextOffset off ((dirs sink).readFrom off count))
      (((dirs sink).readFrom off count).filterMap (expungeEntry cfg)) := by
  intro e he hlt hskip
  rcases taken_or_ahead he hlt with hlt | htaken
  · rcases h e he hlt hskip with h | ⟨g, c, hg, -⟩
    · exact .inl h
    · simp at hg
  have hentry : expungeEntry cfg e = some ⟨e.key, some .lookupSource⟩ := by
    unfold expungeEntry
    rw [hskip]
    rfl
  obtain ⟨g, hg⟩ := mem_iff_getElem?.mp (mem_filterMap.mpr ⟨e, htaken, hentry⟩)
  exact .inr ⟨g, .lookupSource, hg, by decide⟩

/-- A successful answer. What is removed the source does not have, so the sinks keep the names of the source. -/
theorem Clearing.answered (h : Clearing cfg dirs₀ dirs log src frames) (hsrc : cfg.source = some src)
    (hsink : cfg.sink sink = true) (hf : frames[f]? = some ⟨name, some call⟩)
    (hr : ExpungeSpec cfg src sink name call dirs r) :
    Clearing cfg dirs₀ r.dirs log src (frames.set f ⟨name, r.next⟩) where
  present := by
    intro hc x hx hskip j hj
    have hhas := h.present hc x hx hskip j hj
    by_cases hji : j = sink
    · subst hji
      rcases hr.kept x hhas with hhas | ⟨rfl, hcall⟩
      · exact hhas
      · exact absurd hx (h.frames _ (mem_of_getElem? hf) call rfl hcall)
    rw [hr.others j hji]
    exact hhas
  others := by
    intro j hj
    have hji : j ≠ sink := by
      rintro rfl
      rw [hj] at hsink
      cases hsink
    rw [hr.others j hji]
    exact h.others j hj
  cleared := by
    intro c hc x hx hskip
    by_cases hci : c = sink
    · subst hci
      obtain ⟨e, he, rfl⟩ := hx
      rcases hr.fresh e he with he | hskipped
      · exact h.cleared c hc e.key ⟨e, he, rfl⟩ hskip
      rw [hskipped] at hskip
      cases hskip
    rw [hr.others c hci] at hx
    exact h.cleared c hc x hx hskip
  frames := by
    intro g hg c hc hne
    rcases mem_or_eq_of_mem_set hg with hg | rfl
    · exact h.frames g hg c hc hne
    by_cases hcall : call = .lookupSource
    · rw [← h.others src (not_sink_of_source hsrc)]
      exact hr.asked hcall c hc
    · exact h.frames ⟨name, some call⟩ (mem_of_getElem? hf) call rfl hcall

theorem Inspected.answered (h : Inspected cfg dirs₀ dirs src sink off frames)
    (hsrc : dirs src = dirs₀ src) (hf : frames[f]? = some ⟨name, some call⟩)
    (hr : ExpungeSpec cfg src sink name call dirs r) :
    Inspected cfg dirs₀ r.dirs src sink off (frames.set f ⟨name, r.next⟩) := by
  intro e he hlt hskip
  obtain ⟨hbound, -⟩ := List.getElem?_eq_some_iff.mp hf
  rcases hr.fresh e he with hold | hskipped
  · rcases h e hold hlt hskip with h | ⟨g, c, hg, hc⟩
    · exact .inl h
    by_cases hgf : g = f
    · subst hgf
      have heq : (⟨e.key, some c⟩ : ExpungeFrame) = ⟨name, some call⟩ := Option.some.inj (hg.symm.trans hf)
      injection heq with hkey hcall
      obtain rfl : c = call := Option.some.inj hcall
      rcases hr.gone hc with hhas | hnot | ⟨c', hnext, hc'⟩
      · left
        rw [hkey, ← hsrc]
        exact hhas
      · exact absurd ⟨e, he, hkey⟩ hnot
      refine .inr ⟨g, c', ?_, hc'⟩
      rw [List.getElem?_set_self hbound, hkey, hnext]
    refine .inr ⟨g, c, ?_, hc⟩
    rw [List.getElem?_set_ne (Ne.symm hgf)]
    exact hg
  rw [hskipped] at hskip
  cases hskip

theorem Clearing.complete (h : Clearing cfg dirs₀ dirs log src []) (hinsp : Inspected cfg dirs₀ dirs src sink off [])
    (hend : ∀ e ∈ (dirs sink).slots, e.pos < off) :
    Clearing cfg dirs₀ dirs (.readdir .expunge sink .complete :: log) src [] := { h with
  present := by
    intro hc
    rcases mem_cons.mp hc with heq | hc
    · cases heq
    · exact h.present hc
  cleared := by
    intro c hc x hx hskip
    rcases mem_cons.mp hc with heq | hc
    · cases heq
      obtain ⟨e, he, rfl⟩ := hx
      rcases hinsp e he (hend e he) hskip with hsrc | ⟨g, c, hg, -⟩
      · exact hsrc
      · simp at hg
    · exact h.cleared c hc x hx hskip }

theorem Merging.clearing (h : Merging cfg dirs₀ dirs log []) : Clearing cfg dirs₀ dirs log src [] where
  present := fun hc x hx hskip j hj => (h.scanned src hc x hx hskip j hj).has fun _ hfr => absurd hfr not_mem_nil
  others := h.others
  cleared := fun c hc => absurd hc (h.before c _)
  frames := fun _ hfr => absurd hfr not_mem_nil

end

/-! ## Every step keeps it -/

def AllOk (s : State n) : Prop := ∀ a ∈ s.log, a.ok = true

theorem AllOk.head {a : Answer n} (h : AllOk s) (hlog : s.log = a :: log) : a.ok = true := by
  apply h
  rw [hlog]
  exact mem_cons_self

/-- What is known of the names in each phase, if there were no errors. -/
def Names (cfg : Config n) (dirs₀ : Fin n → Dir) (s : State n) : Prop :=
  match s.phase with
  | .opening _ => s.dirs = dirs₀ ∧ ∀ pass c r, Answer.readdir pass c r ∉ s.log
  | .impungeRead src off => Merging cfg dirs₀ s.dirs s.log [] ∧ Visited cfg s.dirs [] src off
  | .impunge src off _ frames => Merging cfg dirs₀ s.dirs s.log frames ∧ Visited cfg s.dirs frames src off
  | .expungeRead sink off => ∀ src, cfg.source = some src →
      Clearing cfg dirs₀ s.dirs s.log src [] ∧ Inspected cfg dirs₀ s.dirs src sink off []
  | .expunge sink off _ frames => ∀ src, cfg.source = some src →
      Clearing cfg dirs₀ s.dirs s.log src frames ∧ Inspected cfg dirs₀ s.dirs src sink off frames
  | .erased => (cfg.source = none → Merging cfg dirs₀ s.dirs s.log []) ∧
      ∀ src, cfg.source = some src → Clearing cfg dirs₀ s.dirs s.log src []
  | .finished => s.log = [] → s.dirs = dirs₀ ∧ ¬ Armed cfg

theorem expungeAll_names (hmerge : cfg.source = none → Merging cfg dirs₀ s.dirs s.log [])
    (hclear : ∀ src, cfg.source = some src → Clearing cfg dirs₀ s.dirs s.log src []) (current : Option (Fin n)) :
    Names cfg dirs₀ (expungeAll cfg s current) := by
  unfold expungeAll
  split
  · exact ⟨hmerge, hclear⟩
  split
  · exact ⟨hmerge, hclear⟩
  split
  · exact ⟨hmerge, hclear⟩
  · exact fun src hsrc => ⟨hclear src hsrc, fun e _ hlt => absurd hlt (Nat.not_lt_zero e.pos)⟩

theorem impungeAll_names (hmerge : Merging cfg dirs₀ s.dirs s.log []) (hok : s.opFailed = false)
    (current : Option (Fin n)) : Names cfg dirs₀ (impungeAll cfg s current) := by
  unfold impungeAll
  rw [hok]
  simp only [Bool.false_eq_true, if_false]
  split
  · exact expungeAll_names (fun _ => hmerge) (fun _ _ => hmerge.clearing) none
  · exact ⟨hmerge, fun e _ hlt => absurd hlt (Nat.not_lt_zero e.pos)⟩

theorem Merging.initial (hlog : ∀ pass c r, Answer.readdir pass c r ∉ log) : Merging cfg dirs₀ dirs₀ log [] where
  scanned := fun c hc => absurd hc (hlog _ c _)
  kept := fun _ _ hx => .inl hx
  known := fun _ _ hx => .inl hx
  others := fun _ _ => rfl
  frames := fun _ hfr => absurd hfr not_mem_nil
  before := fun c r => hlog _ c r

theorem opendirCbk_names {pending : Fin n → Bool} (hph : s.phase = .opening pending) (i : Fin n) (ok : Bool)
    (hnames : Names cfg dirs₀ s) : Names cfg dirs₀ (opendirCbk cfg s pending i ok) := by
  obtain ⟨hdirs, hlog⟩ : s.dirs = dirs₀ ∧ ∀ pass c r, Answer.readdir pass c r ∉ s.log := by
    simpa only [Names, hph] using hnames
  have hlog' : ∀ pass c r, Answer.readdir pass c r ∉ Answer.opendir i ok :: s.log := by
    intro pass c r hmem
    rcases mem_cons.mp hmem with heq | hmem
    · cases heq
    · exact hlog pass c r hmem
  unfold opendirCbk
  simp only
  split
  · exact ⟨hdirs, hlog'⟩
  split
  · exact nofun
  · rename_i hfail
    apply impungeAll_names
    · show Merging cfg dirs₀ s.dirs (Answer.opendir i ok :: s.log) []
      rw [hdirs]
      exact Merging.initial hlog'
    · simpa using hfail

theorem impungeReaddirCbk_names (hph : s.phase = .impungeRead src off)
    (horder : PhaseOrder cfg s) (count : Nat) (ok : Bool) (hnames : Names cfg dirs₀ s)
    (hok : AllOk (impungeReaddirCbk cfg s src off count ok)) :
    Names cfg dirs₀ (impungeReaddirCbk cfg s src off count ok) := by
  have hscan : Scanning cfg s src := by simpa only [PhaseOrder, hph] using horder
  obtain ⟨hmerge, hvisited⟩ : Merging cfg dirs₀ s.dirs s.log [] ∧ Visited cfg s.dirs [] src off := by
    simpa only [Names, hph] using hnames
  have hbatch : Merging cfg dirs₀ s.dirs (.readdir .impunge src .batch :: s.log) [] :=
    hmerge.heard (fun _ h => (by cases h)) (fun _ _ h => (by cases h))
  rcases (readdirCbk_cases cfg s src off count ok).1 with ⟨r, hr, heq⟩ | ⟨batch, rfl, ⟨hnil, heq⟩ | heq⟩ <;>
    rw [heq] at hok ⊢
  · rcases hr with rfl | ⟨rfl, hend⟩
    · -- a failed read is an error
      have hbad := hok.head (impungeAll_phaseOnly cfg (s.heard (.readdir .impunge src .failed)) (some src)).log
      cases hbad
    exact impungeAll_names (s := s.heard (.readdir .impunge src .complete)) (hmerge.complete hvisited hend)
      hscan.1.1 _
  · have hvisited' := hvisited.batch (count + 1)
    rw [hnil] at hvisited'
    exact ⟨hbatch, hvisited'⟩
  · exact ⟨hbatch.batch hscan.scans, hvisited.batch (count + 1)⟩

theorem impungeCbk_names {off callCount f : Nat} {i : Fin n} (hph : s.phase = .impunge src off callCount frames)
    (hf : frames[f]? = some fr) (hcall : fr.calls i = some call) (horder : PhaseOrder cfg s) (ok : Bool) (pos : Nat)
    (hnames : Names cfg dirs₀ s) (hok : AllOk (impungeCbk s src off callCount frames f fr i call ok pos)) :
    Names cfg dirs₀ (impungeCbk s src off callCount frames f fr i call ok pos) := by
  obtain ⟨-, hcounts⟩ : Scanning cfg s src ∧ ImpungeCounts cfg src callCount frames := by
    simpa only [PhaseOrder, hph] using horder
  obtain ⟨hmerge, hvisited⟩ :
      Merging cfg dirs₀ s.dirs s.log frames ∧ Visited cfg s.dirs frames src off := by
    simpa only [Names, hph] using hnames
  obtain ⟨hne, hsink⟩ := target_sink (hcounts.targets fr (mem_of_getElem? hf) i (by rw [hcall]; rfl))
  obtain ⟨r, hr, hcases⟩ := impungeCbk_cases hcounts hf hcall s off ok pos
  have hrok : r.ok = true := by
    rcases hcases with ⟨-, heq⟩ | ⟨c, -, heq⟩ <;> rw [heq] at hok
    all_goals exact hok.head (a := .impunge call i fr.name r.ok) rfl
  have hspec : ImpungeSpec fr i call s.dirs r := by
    rw [hr] at hrok ⊢
    exact impungeCall_spec hrok
  have hmerge' : Merging cfg dirs₀ r.dirs (.impunge call i fr.name r.ok :: s.log) (frames.set f (fr.answered i r)) :=
    (hmerge.answered hf hcall hsink hspec).heard (fun _ h => (by cases h)) (fun _ _ h => (by cases h))
  have hvisited' := hvisited.answered hf hcall hne.symm hspec
  rcases hcases with ⟨hnone, heq⟩ | ⟨c, -, heq⟩ <;> rw [heq]
  · exact ⟨hmerge'.settle hnone, hvisited'.settle hnone⟩
  · exact ⟨hmerge', hvisited'⟩

theorem expungeReaddirCbk_names {sink : Fin n} (hph : s.phase = .expungeRead sink off)
    (horder : PhaseOrder cfg s) (count : Nat) (ok : Bool) (hnames : Names cfg dirs₀ s)
    (hok : AllOk (expungeReaddirCbk cfg s sink off count ok)) :
    Names cfg dirs₀ (expungeReaddirCbk cfg s sink off count ok) := by
  have hpurge : Purging cfg s sink := by simpa only [PhaseOrder, hph] using horder
  have hclear : ∀ src, cfg.source = some src →
      Clearing cfg dirs₀ s.dirs s.log src [] ∧ Inspected cfg dirs₀ s.dirs src sink off [] := by
    simpa only [Names, hph] using hnames
  have hbatch : ∀ src, cfg.source = some src →
      Clearing cfg dirs₀ s.dirs (.readdir .expunge sink .batch :: s.log) src [] :=
    fun src hsrc => (hclear src hsrc).1.heard fun _ _ h => (by cases h)
  rcases (readdirCbk_cases cfg s sink off count ok).2 with ⟨r, hr, heq⟩ | ⟨batch, rfl, ⟨hnil, heq⟩ | heq⟩ <;>
    rw [heq] at hok ⊢
  · rcases hr with rfl | ⟨rfl, hend⟩
    · have hbad := hok.head (expungeAll_phaseOnly cfg (s.heard (.readdir .expunge sink .failed)) (some sink)).log
      cases hbad
    apply expungeAll_names
    · exact fun hnone => absurd hnone hpurge.2.1
    intro src hsrc
    exact (hclear src hsrc).1.complete (hclear src hsrc).2 hend
  · intro src hsrc
    have hinsp := (hclear src hsrc).2.batch (count + 1)
    rw [hnil] at hinsp
    exact ⟨hbatch src hsrc, hinsp⟩
  intro src hsrc
  exact ⟨(hbatch src hsrc).batch _, (hclear src hsrc).2.batch (count + 1)⟩

theorem expungeCbk_names {src sink : Fin n} {off callCount f : Nat} {frames : List ExpungeFrame} {name : String}
    {call : Expunge} (hsrc : cfg.source = some src) (hph : s.phase = .expunge sink off callCount frames)
    (hf : frames[f]? = some ⟨name, some call⟩) (horder : PhaseOrder cfg s) (ok cached : Bool) (pos : Nat)
    (hnames : Names cfg dirs₀ s)
    (hok : AllOk (expungeCbk cfg s src sink off callCount frames f name call ok cached pos)) :
    Names cfg dirs₀ (expungeCbk cfg s src sink off callCount frames f name call ok cached pos) := by
  obtain ⟨hpurge, hcounts⟩ : Purging cfg s sink ∧ ExpungeCounts callCount frames := by
    simpa only [PhaseOrder, hph] using horder
  have hclear : ∀ src, cfg.source = some src →
      Clearing cfg dirs₀ s.dirs s.log src frames ∧ Inspected cfg dirs₀ s.dirs src sink off frames := by
    simpa only [Names, hph] using hnames
  obtain ⟨hclear, hinsp⟩ := hclear src hsrc
  obtain ⟨r, hr, hcases⟩ := expungeCbk_cases hcounts hf cfg s src off ok cached pos
  have hrok : r.ok = true := by
    rcases hcases with ⟨-, heq⟩ | ⟨c, -, heq⟩ <;> rw [heq] at hok
    all_goals exact hok.head (a := .expunge call sink name r.ok) rfl
  have hspec : ExpungeSpec cfg src sink name call s.dirs r := by
    rw [hr] at hrok ⊢
    exact expungeCall_spec hrok
  have hclear' : Clearing cfg dirs₀ r.dirs (.expunge call sink name r.ok :: s.log) src
      (frames.set f ⟨name, r.next⟩) :=
    (hclear.answered hsrc hpurge.2.2.1 hf hspec).heard fun _ _ h => (by cases h)
  have hinsp' := hinsp.answered (hclear.others src (not_sink_of_source hsrc)) hf hspec
  rcases hcases with ⟨hnone, heq⟩ | ⟨c, -, heq⟩ <;> rw [heq] <;> intro p hp <;>
    obtain rfl : src = p := Option.some.inj (hsrc.symm.trans hp)
  · exact ⟨hclear'.settle, hinsp'.settle hnone⟩
  · exact ⟨hclear', hinsp'⟩

theorem step_names {a : Action n} (horder : PhaseOrder cfg s) (hnames : AllOk s → Names cfg dirs₀ s)
    (h : step cfg s a = .ok s') (hok : AllOk s') : Names cfg dirs₀ s' := by
  obtain ⟨-, -, ans, hheard⟩ := step_heard h
  have hnames : Names cfg dirs₀ s := by
    apply hnames
    intro b hb
    apply hok
    rw [hheard.log]
    exact mem_cons_of_mem ans hb
  rcases step_cases h with ⟨pending, i, ok, hph, -, rfl⟩ | ⟨src, off, count, ok, hph, rfl⟩ |
    ⟨src, off, callCount, frames, f, fr, i, call, ok, pos, hph, hf, hcall, rfl⟩ |
    ⟨sink, off, count, ok, hph, rfl⟩ |
    ⟨src, sink, off, callCount, frames, f, name, call, ok, cached, pos, hsrc, hph, hf, rfl⟩
  · exact opendirCbk_names hph i ok hnames
  · exact impungeReaddirCbk_names hph horder count ok hnames hok
  · exact impungeCbk_names hph hf hcall horder ok pos hnames hok
  · exact expungeReaddirCbk_names hph horder count ok hnames hok
  · exact expungeCbk_names hsrc hph hf horder ok cached pos hnames hok

theorem afrShEntrySyncPrepare_names (cfg : Config n) (dirs : Fin n → Dir) (trash : Fin n → Bool)
    (store : FileStore n) : Names cfg dirs (afrShEntrySyncPrepare cfg dirs trash store) := by
  unfold afrShEntrySyncPrepare
  simp only
  split
  · rename_i hsinks
    exact fun _ => ⟨rfl, fun harmed => harmed.1.ne' hsinks⟩
  split
  · rename_i hmerge
    exact fun _ => ⟨rfl, fun harmed => absurd (harmed.2 hmerge.1) (Nat.not_le_of_lt hmerge.2)⟩
  · exact ⟨rfl, fun _ _ _ => not_mem_nil⟩

theorem run_names {trash : Fin n → Bool} {store : FileStore n} {as : List (Action n)}
    (hrun : run (step cfg) (afrShEntrySyncPrepare cfg dirs₀ trash store) as = .ok s) (hok : AllOk s) :
    Names cfg dirs₀ s := by
  have hinv : Ordered cfg store s ∧ (AllOk s → Names cfg dirs₀ s) := by
    refine run_invariant_all (I := fun s => Ordered cfg store s ∧ (AllOk s → Names cfg dirs₀ s)) ?_
      ⟨afrShEntrySyncPrepare_ordered cfg dirs₀ trash store, fun _ => afrShEntrySyncPrepare_names cfg dirs₀ trash store⟩
      hrun
    intro t a t' ht hstep
    exact ⟨ht.1.step hstep, step_names ht.1.order ht.2 hstep⟩
  exact hinv.2 hok

/-! ## The end of a heal -/

theorem sink_of_merge (hnone : cfg.source = none) (i : Fin n) : cfg.sink i = cfg.childUp i := by
  simp [Config.sink, cfg.choice.merge hnone i]

theorem Ended.complete (hok : AllOk s) {pass : Pass} {c : Fin n} (h : Ended s.log pass c) :
    Answer.readdir pass c .complete ∈ s.log := by
  rcases h with h | h
  · exact h
  have := hok _ h
  cases this

theorem two_sinks {i j : Fin n} (hi : cfg.sink i = true) (hj : cfg.sink j = true) (hne : j ≠ i) :
    2 ≤ (List.finRange n).countP cfg.sink := by
  rw [(perm_cons_erase (mem_finRange i)).countP_eq, countP_cons, hi]
  have hpos : 0 < ((List.finRange n).erase i).countP cfg.sink :=
    countP_pos_iff.mpr ⟨j, (mem_erase_of_ne hne).mpr (mem_finRange j), hj⟩
  simp only [if_true]
  omega

theorem merged_of_not_armed (harmed : ¬ Armed cfg) (hnone : cfg.source = none) {i j : Fin n}
    (hi : cfg.childUp i = true) (hj : cfg.childUp j = true) : j = i := by
  by_contra hne
  rw [← sink_of_merge hnone] at hi hj
  apply harmed
  have htwo := two_sinks hi hj hne
  exact ⟨by omega, fun _ => htwo⟩

theorem no_sink_of_not_armed (harmed : ¬ Armed cfg) (hsrc : cfg.source = some src) (i : Fin n) :
    cfg.sink i = false := by
  by_contra hi
  apply harmed
  refine ⟨countP_pos_iff.mpr ⟨i, mem_finRange i, by simpa using hi⟩, ?_⟩
  intro hnone
  rw [hnone] at hsrc
  cases hsrc

/-- **An entry self-heal makes the directories equal.** -/
theorem entry_heal_equalises (cfg : Config n) (dirs : Fin n → Dir) (trash : Fin n → Bool) (store : FileStore n)
    (as : List (Action n)) (s : State n)
    (hrun : run (step cfg) (afrShEntrySyncPrepare cfg dirs trash store) as = .ok s)
    (hdone : s.phase = .erased ∨ s.phase = .finished) (hok : ∀ a ∈ s.log, a.ok = true) :
    (∀ src, cfg.source = some src → s.dirs src = dirs src ∧ ∀ i, cfg.sink i = true → ∀ x, cfg.skipped x = false →
      ((s.dirs i).Has x ↔ (dirs src).Has x)) ∧
    (cfg.source = none → ∀ i, cfg.childUp i = true → ∀ x, cfg.skipped x = false →
      ((s.dirs i).Has x ↔ ∃ j, cfg.childUp j = true ∧ (dirs j).Has x)) := by
  have hnames := run_names hrun hok
  have hordered := run_ordered hrun
  have horder := hordered.order
  rcases hdone with hphase | hphase
  · obtain ⟨hmerge, hclear⟩ : (cfg.source = none → Merging cfg dirs s.dirs s.log []) ∧
        ∀ src, cfg.source = some src → Clearing cfg dirs s.dirs s.log src [] := by
      simpa only [Names, hphase] using hnames
    obtain ⟨hscanned, hpurged⟩ : Purged cfg s := by simpa only [PhaseOrder, hphase] using horder
    constructor
    · intro src hsource
      have hsome : cfg.source ≠ none := by simp [hsource]
      refine ⟨(hclear src hsource).others src (not_sink_of_source hsource), ?_⟩
      intro i hi x hx
      constructor
      · intro hhas
        exact (hclear src hsource).cleared i ((hpurged hsome i hi).complete hok) x hhas hx
      intro hhas
      exact (hclear src hsource).present ((hscanned.2 src (.inl hsource)).complete hok) x hhas hx i hi
    intro hnone i hi x hx
    rw [← sink_of_merge hnone] at hi
    constructor
    · intro hhas
      rcases (hmerge hnone).known i x hhas with hold | ⟨c, hc, hold⟩
      · exact ⟨i, by rwa [← sink_of_merge hnone], hold⟩
      rcases hc with hc | ⟨-, hc⟩
      · rw [hnone] at hc
        cases hc
      · exact ⟨c, by rwa [← sink_of_merge hnone], hold⟩
    rintro ⟨j, hj, hold⟩
    rw [← sink_of_merge hnone] at hj
    have hended := (hscanned.2 j (.inr ⟨hnone, hj⟩)).complete hok
    exact ((hmerge hnone).scanned j hended x hold hx i hi).has fun _ hfr => absurd hfr not_mem_nil
  -- no error was recorded, so nothing was done
  have hlog : s.log = [] := by
    have hfinished : s.log = [] ∨ s.opFailed = true := by simpa only [PhaseOrder, hphase] using horder
    rcases hfinished with hlog | hfailed
    · exact hlog
    obtain ⟨i, hi⟩ := hordered.failed hfailed
    have := hok _ hi
    cases this
  obtain ⟨hdirs, harmed⟩ : s.dirs = dirs ∧ ¬ Armed cfg := by
    have := hnames
    simp only [Names, hphase] at this
    exact this hlog
  rw [hdirs]
  constructor
  · intro src hsource
    refine ⟨rfl, ?_⟩
    intro i hi
    rw [no_sink_of_not_armed harmed hsource i] at hi
    cases hi
  intro hnone i hi x _
  constructor
  · exact fun hhas => ⟨i, hi, hhas⟩
  rintro ⟨j, hj, hhas⟩
  rwa [merged_of_not_armed harmed hnone hi hj] at hhas

/-- Two children: the first is the source, with a file and a link; the second has a file of its own and the link with
    another target. -/
def sampleConfig : Config 2 where
  childUp := fun _ => true
  choice := .select fun i => decide (i = 0)
  isRoot := false
  xattr := fun _ => none
  eraseFail := fun _ => none

def sampleDirs (i : Fin 2) : Dir :=
  if i = 0 then
    ⟨[⟨0, ".", ⟨.dir, ""⟩⟩, ⟨1, "a", ⟨.reg, ""⟩⟩, ⟨2, "l", ⟨.lnk, "t"⟩⟩], by decide, by decide⟩
  else ⟨[⟨0, "b", ⟨.reg, ""⟩⟩, ⟨1, "l", ⟨.lnk, "u"⟩⟩], by decide, by decide⟩

/-- "a" is the first frame and "l" the second one; then "b" is the first. -/
def sampleRun : List (Action 2) :=
  [.opendir 1 true, .opendir 0 true, .readdir 0 true, .readdir 5 true, .impunge 1 1 true 0, .impunge 0 1 true 0,
    .impunge 0 1 true 0, .impunge 0 1 true 7, .impunge 1 1 true 0, .impunge 1 1 true 0, .impunge 1 1 true 0,
    .impunge 1 1 true 0, .impunge 1 1 true 3, .impunge 0 1 true 0, .impunge 0 1 true 0, .impunge 1 1 true 0,
    .impunge 1 1 true 0, .readdir 0 true, .readdir 9 true, .expunge 0 true false 0, .expunge 1 true false 0,
    .expunge 2 true false 0, .expunge 0 true false 0, .expunge 0 true false 0, .expunge 0 true false 0,
    .expunge 0 true false 0, .expunge 0 true false 0, .readdir 0 true]

/-- The heal came to its end, and no answer was an error. -/
def State.healed (s : State n) : Bool :=
  match s.phase with
  | .erased => s.log.all Answer.ok
  | _ => false

theorem State.healed_iff : s.healed = true ↔ s.phase = .erased ∧ ∀ a ∈ s.log, a.ok = true := by
  unfold State.healed
  split
  · rename_i hph
    simp [hph]
  · rename_i hph
    exact ⟨nofun, fun h => absurd h.1 hph⟩

theorem both_have_the_source_names : ∃ s,
    run (step sampleConfig) (afrShEntrySyncPrepare sampleConfig sampleDirs (fun _ => false) fun _ _ => none)
      sampleRun = .ok s ∧
    ∀ x, sampleConfig.skipped x = false → ((s.dirs 1).Has x ↔ (sampleDirs 0).Has x) := by
  have hhealed : (run (step sampleConfig)
      (afrShEntrySyncPrepare sampleConfig sampleDirs (fun _ => false) fun _ _ => none) sampleRun).map State.healed =
        .ok true := by
    decide +kernel
  obtain ⟨s, hrun, hs⟩ := map_eq_ok hhealed
  obtain ⟨hphase, hok⟩ := State.healed_iff.mp hs.symm
  have heq := entry_heal_equalises sampleConfig sampleDirs (fun _ => false) (fun _ _ => none) sampleRun s hrun
    (.inl hphase) hok
  exact ⟨s, hrun, (heq.1 0 (by decide)).2 1 (by decide)⟩

end GlusterFS.Afr.EntryHeal
