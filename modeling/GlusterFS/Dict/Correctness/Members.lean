import GlusterFS.Dict.Serialize

/-!
# `Dict.Correctness.Members` — a dict is a finite map

The chain of a bucket has the pairs of its keys, in the order of the list of all pairs, and a key is in the list once.
`dict_set` and `dict_del` keep that, so `dict_get` after them is what it is for a finite map. For `dict_set` this
needs that it puts a new key into the bucket where it is looked for: the one takes the remainder of a signed number,
the other that of an unsigned one. With one bucket both are 0.
-/

namespace GlusterFS.Dict

open Transition List

variable {δ : Type} {this : DictT δ} (hash : Key → BitVec 32)

/-- The bucket a key is looked for in. -/
def bucket (hashSize : BitVec 32) (key : Option Key) : Nat := (hash (key.getD [])).toNat % hashSize.toNat

/-- **A dict**: the list of the pairs, cut up into chains. -/
structure Chained (this : DictT δ) : Prop where
  size : 0 < this.hashSize.toNat
  chain : ∀ i < this.hashSize.toNat,
    this.members i = this.membersList.filter fun pair => bucket hash this.hashSize pair.key = i
  count : this.count = BitVec.ofNat 32 this.membersList.length
  distinct : (this.membersList.map DataPair.key).Nodup

/-- **A dict with one bucket.** -/
structure OneBucket (this : DictT δ) : Prop where
  size : this.hashSize = 1
  chain : this.members 0 = this.membersList
  count : this.count = BitVec.ofNat 32 this.membersList.length
  distinct : (this.membersList.map DataPair.key).Nodup

theorem oneBucket_dictNew : OneBucket (dictNew : DictT δ) := ⟨rfl, rfl, rfl, nodup_nil⟩

variable {key : Key}

theorem bucket_one (key : Option Key) : bucket hash 1 key = 0 := Nat.mod_one _

theorem OneBucket.chained (h : OneBucket this) : Chained hash this where
  size := by
    rw [h.size]
    decide
  chain := by
    intro i hi
    rw [h.size] at hi ⊢
    obtain rfl : i = 0 := Nat.lt_one_iff.mp hi
    simp only [h.chain, bucket_one, decide_true, filter_true]
  count := h.count
  distinct := h.distinct

section

variable {hash} (h : Chained hash this)

include h

theorem Chained.oneBucket (hsize : this.hashSize = 1) : OneBucket this where
  size := hsize
  chain := by
    rw [h.chain 0 h.size]
    simp only [hsize, bucket_one, decide_true, filter_true]
  count := h.count
  distinct := h.distinct

theorem Chained.lookup (key : Key) :
    dictLookup hash this key = this.membersList.find? fun pair => pair.key = some key := by
  unfold dictLookup
  dsimp only
  rw [h.chain _ (Nat.mod_lt _ h.size), find?_filter]
  congr 1
  funext pair
  by_cases hkey : pair.key = some key <;> simp [hkey, bucket]

theorem Chained.get (key : Key) :
    dictGet hash this key = (this.membersList.find? fun pair => pair.key = some key).bind DataPair.value := by
  unfold dictGet
  rw [h.lookup]

theorem Chained.get_of_mem {value : Option (DataT δ)} (hmem : ⟨some key, value⟩ ∈ this.membersList) :
    dictGet hash this key = value := by
  rw [h.get]
  cases hfind : this.membersList.find? fun pair => pair.key = some key with
  | none =>
    have hnone := find?_eq_none.mp hfind _ hmem
    simp at hnone
  | some pair =>
    have hkey : pair.key = some key := by simpa using find?_some hfind
    have heq := inj_on_of_nodup_map h.distinct (mem_of_find?_eq_some hfind) hmem hkey
    rw [heq]
    rfl

theorem Chained.get_eq_none (hnot : some key ∉ this.membersList.map DataPair.key) : dictGet hash this key = none := by
  rw [h.get]
  have hfind : (this.membersList.find? fun pair => pair.key = some key) = none := by
    rw [find?_eq_none]
    intro pair hpair hkey
    exact hnot (mem_map.mpr ⟨pair, hpair, of_decide_eq_true hkey⟩)
  rw [hfind]
  rfl

end

theorem mem_of_find {pairs : List (DataPair δ)} {old : DataPair δ}
    (hfind : (pairs.find? fun pair => pair.key = some key) = some old) : some key ∈ pairs.map DataPair.key := by
  have hold : old.key = some key := by simpa using find?_some hfind
  exact mem_map.mpr ⟨old, mem_of_find?_eq_some hfind, hold⟩

theorem map_key_setValue (key : Key) (value : DataT δ) (pairs : List (DataPair δ)) :
    (setValue key value pairs).map DataPair.key = pairs.map DataPair.key := by
  unfold setValue
  rw [map_map]
  apply map_congr_left
  intro pair _
  by_cases hkey : pair.key = some key <;> simp [hkey]

theorem find_setValue (key other : Key) (value : DataT δ) (pairs : List (DataPair δ)) :
    ((setValue key value pairs).find? fun pair => pair.key = some other).bind DataPair.value =
      if other = key ∧ some key ∈ pairs.map DataPair.key then some value
      else (pairs.find? fun pair => pair.key = some other).bind DataPair.value := by
  induction pairs with
  | nil => simp [setValue]
  | cons pair pairs ih =>
    unfold setValue at ih ⊢
    rw [map_cons, find?_cons, find?_cons]
    by_cases hkey : pair.key = some key
    · by_cases hother : other = key
      · simp [hkey, hother]
      have hne : ¬ key = other := fun heq => hother heq.symm
      simp only [hkey, if_true, Option.some.injEq, hne, decide_false]
      rw [ih]
      simp [hother]
    rw [if_neg hkey]
    by_cases hpair : pair.key = some other
    · have hne : ¬ other = key := by
        rintro rfl
        exact hkey hpair
      simp [hpair, hne]
    simp only [hpair, decide_false]
    rw [ih]
    have hcons : some key ∈ (pair :: pairs).map DataPair.key ↔ some key ∈ pairs.map DataPair.key := by
      rw [map_cons, mem_cons]
      exact or_iff_right fun heq => hkey heq.symm
    simp only [hcons]

section

variable {hash} (h : Chained hash this)
include h

theorem Chained.setValue (key : Key) (value : DataT δ) : Chained hash { this with
      members := fun i => Dict.setValue key value (this.members i)
      membersList := Dict.setValue key value this.membersList } where
  size := h.size
  chain := by
    intro i hi
    show Dict.setValue key value (this.members i) = (Dict.setValue key value this.membersList).filter _
    rw [h.chain i hi, Dict.setValue, Dict.setValue, filter_map]
    congr 2
    funext pair
    by_cases hkey : pair.key = some key <;> simp [hkey]
  count := by
    rw [h.count]
    simp [Dict.setValue]
  distinct := by
    rw [map_key_setValue]
    exact h.distinct

theorem Chained.cons (hfresh : some key ∉ this.membersList.map DataPair.key) (value : DataT δ) :
    Chained hash { this with
      members := fun i => if i = bucket hash this.hashSize (some key) then ⟨some key, some value⟩ :: this.members i
        else this.members i
      membersList := ⟨some key, some value⟩ :: this.membersList
      count := this.count + 1 } where
  size := h.size
  chain := by
    intro i hi
    rw [filter_cons, ← h.chain i hi]
    by_cases hbucket : i = bucket hash this.hashSize (some key)
    · simp [hbucket]
    · simp [hbucket, Ne.symm hbucket]
  count := by
    rw [h.count, length_cons, BitVec.ofNat_add]
    rfl
  distinct := nodup_cons.mpr ⟨hfresh, h.distinct⟩

/-- **What `dict_set` does**, if it takes the right bucket. -/
theorem Chained.set (key : Key) (value : DataT δ)
    (hindex : (hash key).toInt.tmod this.hashSize.toInt = bucket hash this.hashSize (some key)) :
    ∃ that, dictSet hash this key value = .ok that ∧ Chained hash that ∧ that.hashSize = this.hashSize ∧
      (∀ other, dictGet hash that other = if other = key then some value else dictGet hash this other) ∧
      ∀ pair ∈ that.membersList, pair ∈ this.membersList ∨ pair = ⟨some key, some value⟩ := by
  unfold dictSet
  rw [h.lookup]
  cases hfind : this.membersList.find? fun pair => pair.key = some key with
  | some old =>
    refine ⟨_, rfl, h.setValue key value, rfl, ?_, ?_⟩
    · intro other
      have hmem := mem_of_find hfind
      rw [(h.setValue key value).get, h.get, find_setValue]
      simp only [hmem, and_true]
    intro pair hpair
    obtain ⟨old', hold', rfl⟩ := mem_map.mp hpair
    split
    next hkey => exact .inr (by rw [hkey])
    · exact .inl hold'
  | none =>
    have hfresh : some key ∉ this.membersList.map DataPair.key := by
      intro hmem
      obtain ⟨pair, hpair, hkey⟩ := mem_map.mp hmem
      have hnot := find?_eq_none.mp hfind pair hpair
      simp [hkey] at hnot
    dsimp only
    rw [hindex, if_neg (Int.not_lt.mpr (Int.natCast_nonneg _)), Int.toNat_natCast]
    refine ⟨_, rfl, h.cons hfresh value, rfl, ?_, ?_⟩
    · intro other
      rw [(h.cons hfresh value).get, h.get, find?_cons]
      by_cases hother : other = key
      · simp [hother]
      have hne : ¬ key = other := fun heq => hother heq.symm
      simp [hother, hne]
    intro pair hpair
    exact (mem_cons.mp hpair).symm

theorem Chained.length_filter (hmem : some key ∈ this.membersList.map DataPair.key) :
    (this.membersList.filter fun pair => pair.key ≠ some key).length + 1 = this.membersList.length := by
  have hone : (this.membersList.filter fun pair => ! decide (pair.key ≠ some key)).length = 1 := by
    rw [← countP_eq_length_filter]
    have hcnt := count_eq_one_of_mem h.distinct hmem
    rw [List.count, countP_map] at hcnt
    rw [← hcnt]
    apply countP_congr
    intro pair _
    simp
  have hsplit := length_eq_length_filter_add (l := this.membersList) fun pair => decide (pair.key ≠ some key)
  omega

/-- **What `dict_del` does.** -/
theorem Chained.del (key : Key) :
    Chained hash (dictDel hash this key) ∧ (dictDel hash this key).hashSize = this.hashSize ∧
      (∀ other, dictGet hash (dictDel hash this key) other = if other = key then none else dictGet hash this other) ∧
      (dictDel hash this key).membersList ⊆ this.membersList := by
  unfold dictDel
  rw [h.lookup]
  cases hfind : this.membersList.find? fun pair => pair.key = some key with
  | none =>
    refine ⟨h, rfl, ?_, (List.Subset.refl _)⟩
    intro other
    by_cases hother : other = key
    · rw [if_pos hother, hother, h.get, hfind]
      rfl
    · rw [if_neg hother]
  | some old =>
    have hmem := mem_of_find hfind
    have hthat : Chained hash { this with
        members := fun i => (this.members i).filter fun pair => pair.key ≠ some key
        membersList := this.membersList.filter fun pair => pair.key ≠ some key
        count := this.count - 1 } :=
      { size := h.size
        chain := by
          intro i hi
          show (this.members i).filter _ = filter _ (filter _ _)
          rw [h.chain i hi, filter_filter, filter_filter]
          congr 1
          funext pair
          exact Bool.and_comm ..
        count := by
          rw [h.count, ← h.length_filter hmem, BitVec.ofNat_add]
          exact BitVec.add_sub_cancel ..
        distinct := h.distinct.sublist (filter_sublist.map DataPair.key) }
    refine ⟨hthat, rfl, ?_, filter_sublist.subset⟩
    intro other
    rw [hthat.get, h.get]
    by_cases hother : other = key
    · have hnone : ((this.membersList.filter fun pair => pair.key ≠ some key).find? fun pair =>
          pair.key = some other) = none := by
        rw [find?_eq_none]
        intro pair hpair
        have hkey := of_mem_filter hpair
        simpa [hother] using hkey
      rw [if_pos hother, hnone]
      rfl
    rw [if_neg hother, find?_filter]
    congr 2
    funext pair
    by_cases hpair : pair.key = some other <;> simp [hpair, hother]

end

/-! ## The dicts there are -/

inductive DictOp (δ : Type) where
  | set (key : Key) (value : DataT δ)
  | del (key : Key)

def dictStep (this : DictT δ) : DictOp δ → Except Stop (DictT δ)
  | .set key value => dictSet hash this key value
  | .del key => .ok (dictDel hash this key)

/-- `dict_set` takes the bucket where the key is looked for. -/
def DictOp.SameBucket (hashSize : BitVec 32) : DictOp δ → Prop
  | .set key _ => (hash key).toInt.tmod hashSize.toInt = bucket hash hashSize (some key)
  | .del _ => True

def DictOp.onMap (m : Key → Option (DataT δ)) : DictOp δ → Key → Option (DataT δ)
  | .set key value => fun other => if other = key then some value else m other
  | .del key => fun other => if other = key then none else m other

theorem Chained.step {hash} (h : Chained hash this) {op : DictOp δ} (hop : op.SameBucket hash this.hashSize) :
    ∃ that, dictStep hash this op = .ok that ∧ Chained hash that ∧ that.hashSize = this.hashSize ∧
      dictGet hash that = op.onMap (dictGet hash this) ∧
      ((∀ pair ∈ this.membersList, pair.value ≠ none) → ∀ pair ∈ that.membersList, pair.value ≠ none) := by
  cases op with
  | set key value =>
    obtain ⟨that, hset, hthat, hsize, hget, hpairs⟩ := h.set key value hop
    refine ⟨that, hset, hthat, hsize, funext hget, ?_⟩
    intro hall pair hpair
    rcases hpairs pair hpair with hold | rfl
    · exact hall pair hold
    · exact Option.some_ne_none value
  | del key =>
    obtain ⟨hthat, hsize, hget, hsub⟩ := h.del key
    exact ⟨_, rfl, hthat, hsize, funext hget, fun hall pair hpair => hall pair (hsub hpair)⟩

theorem Chained.run {hash} : ∀ {ops : List (DictOp δ)} {this : DictT δ}, Chained hash this →
    (∀ op ∈ ops, op.SameBucket hash this.hashSize) → (∀ pair ∈ this.membersList, pair.value ≠ none) →
    ∃ that, run (dictStep hash) this ops = .ok that ∧ Chained hash that ∧ that.hashSize = this.hashSize ∧
      dictGet hash that = ops.foldl DictOp.onMap (dictGet hash this) ∧ ∀ pair ∈ that.membersList, pair.value ≠ none := by
  intro ops
  induction ops with
  | nil =>
    intro this h _ hall
    exact ⟨this, rfl, h, rfl, rfl, hall⟩
  | cons op ops ih =>
    intro this h hops hall
    obtain ⟨hop, hops⟩ := forall_mem_cons.mp hops
    obtain ⟨this1, hstep, h1, hsize, hget, hkeep⟩ := h.step hop
    obtain ⟨that, hrun, hthat, hsize', hget', hall'⟩ := ih h1 (hsize ▸ hops) (hkeep hall)
    rw [hget] at hget'
    exact ⟨that, run_cons_ok.mpr ⟨this1, hstep, hrun⟩, hthat, hsize'.trans hsize, hget', hall'⟩

theorem sameBucket_one (op : DictOp δ) : op.SameBucket hash 1 := by
  cases op with
  | set key value =>
    show (hash key).toInt.tmod 1 = _
    rw [Int.tmod_one, bucket_one]
    rfl
  | del key => trivial

/-- **Every dict the program makes has one bucket**, and no change of it writes outside. -/
theorem oneBucket_run (ops : List (DictOp δ)) :
    ∃ this, run (dictStep hash) dictNew ops = .ok this ∧ OneBucket this := by
  obtain ⟨this, hrun, hthis, hsize, -⟩ := Chained.run (oneBucket_dictNew.chained hash)
    (fun op _ => sameBucket_one hash op) nofun
  exact ⟨this, hrun, hthis.oneBucket hsize⟩

/-- **What `dict_set` does** to a dict with one bucket. -/
theorem dictSet_spec (h : OneBucket this) (key : Key) (value : DataT δ) :
    ∃ that, dictSet hash this key value = .ok that ∧ OneBucket that ∧
      (∀ other, dictGet hash that other = if other = key then some value else dictGet hash this other) ∧
      ∀ pair ∈ that.membersList, pair ∈ this.membersList ∨ pair = ⟨some key, some value⟩ := by
  obtain ⟨that, hset, hthat, hsize, hrest⟩ := (h.chained hash).set key value
    (h.size ▸ sameBucket_one hash (.set key value))
  exact ⟨that, hset, hthat.oneBucket (hsize.trans h.size), hrest⟩

/-- **A dict is a finite map**, with any number of buckets, if every key that is set goes to the bucket where it is
    looked for. The list has one pair for each key of the map, `count` is its length, and the chains have its pairs. -/
theorem dict_is_map (hashSize : BitVec 32) (hsize : 0 < hashSize.toInt) (ops : List (DictOp δ))
    (hops : ∀ op ∈ ops, op.SameBucket hash hashSize) :
    ∃ this, run (dictStep hash) (getNewDictFull hashSize) ops = .ok this ∧
      dictGet hash this = ops.foldl DictOp.onMap (fun _ => none) ∧ (this.membersList.map DataPair.key).Nodup ∧
      (∀ key, some key ∈ this.membersList.map DataPair.key ↔ dictGet hash this key ≠ none) ∧
      this.count = BitVec.ofNat 32 this.membersList.length ∧ ∀ i < hashSize.toNat,
        this.members i = this.membersList.filter fun pair => bucket hash hashSize pair.key = i := by
  have hpos : 0 < hashSize.toNat := by
    rw [BitVec.toInt_eq_toNat_cond] at hsize
    split at hsize <;> omega
  have hnew : Chained hash (getNewDictFull hashSize : DictT δ) := ⟨hpos, fun _ _ => rfl, rfl, nodup_nil⟩
  obtain ⟨this, hrun, h, hsame, hget, hall⟩ := hnew.run hops nofun
  obtain rfl : this.hashSize = hashSize := hsame
  refine ⟨this, hrun, hget, h.distinct, fun key => ⟨?_, ?_⟩, h.count, h.chain⟩
  · intro hmem
    obtain ⟨⟨_, value⟩, hpair, rfl⟩ := mem_map.mp hmem
    rw [h.get_of_mem hpair]
    exact hall _ hpair
  intro hsome
  by_contra hnot
  exact hsome (h.get_eq_none hnot)

theorem two_buckets : (run (dictStep fun _ => 1) (getNewDictFull 2) [.set [] (⟨0, none, none⟩ : DataT Nat)]).isOk := by
  obtain ⟨_, hrun, -⟩ := dict_is_map (fun _ => 1) 2 (by decide) [.set [] (⟨0, none, none⟩ : DataT Nat)]
    (forall_mem_singleton.mpr rfl)
  rw [hrun]
  rfl

/-- The remainder of a negative number is negative. -/
theorem negative_bucket : run (dictStep fun _ => -1) (getNewDictFull 2) [.set [] (⟨0, none, none⟩ : DataT Nat)] =
    .error .badIndex := rfl

end GlusterFS.Dict
