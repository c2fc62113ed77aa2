/-
**Creating sets and finding them again.**

The store a sequence of `REQ_PUT_BUCKETSET` requests leaves behind is the table those requests make
when a name covers the names it is a prefix of: `handlePutBucketset_named` connects the two, and
everything here is read off that table.  Resolution is stable because the table only grows; it is
not exact because a name may be shadowed by a shorter one, and neither exact nor retry-safe beyond
the reach of the index.

Main definitions:

* `PutBucketset`, `putBucketset` — a request, and its handling as a step of a run;
* `StoreInv` — what holds of the store between requests;
* `LookupExact`, `OnePerName` — the scan selects the set of a name, and there is one set a name;
* `RetrySafe` — what is expected after a request, of the same request again and of later ones.

Main results:

* `handlePutBucketset_named`, `run_named` — **the store refines the table of its requests**;
* `scan_exact_iff` — the scan is exact exactly when no name is shadowed by an earlier one;
* `retrySafe_iff` — creation is retry-safe exactly within reach of the index.
-/

import SdsStorage.NetSocket

set_option relaxedAutoImplicit false
set_option autoImplicit false

/-! ### Requests and runs -/

/-- A `REQ_PUT_BUCKETSET` request with a terminated name, and the chances its handling meets. -/
structure PutBucketset where
  name : Bytes
  rest : Bytes
  noNul : CString.NoNul name
  chance : ℕ → FsChance

/-- The structure the request is read into. -/
def PutBucketset.field (rq : PutBucketset) : CharPtr := .mem (rq.name ++ 0 :: rq.rest)

/-- The handling of a request, as a step of a run. -/
def putBucketset (sv : Server) (rq : PutBucketset) : Outcome Server :=
  handlePutBucketset rq.chance sv rq.field

/-- The names a sequence of requests asks for. -/
def requested (rs : List PutBucketset) : List Bytes := rs.map PutBucketset.name

/-- What holds of the store between requests. -/
structure StoreInv (sv : Server) (names : List Bytes) : Prop extends SetsNamed sv names where
  cap_pow : ∃ k, sv.st.sets.cap = 2 ^ k

/-- The table of a sequence of names. -/
def registerAll (names l : List Bytes) : List Bytes :=
  names.foldl (prefixCover.register scanReach storeRoom) l

theorem storeInv_start {jsonLoads : Bytes → Option Json} {io : ConfIo} {ss : SdsStore}
    (hinit : sdsStoreInit jsonLoads io = .ok ss) (fs : Fs) : StoreInv (Server.start fs ss) [] := by
  obtain ⟨hsize, hcap, -⟩ := sdsStoreInit_ok hinit
  exact ⟨⟨hsize, fun i s hi => by simp at hi⟩, 13, hcap⟩

/-- Making one more set does not change the names of those the store shows. -/
theorem SetsNamed.of_bucketsets {sv sv' : Server} {names : List Bytes} (h : SetsNamed sv names)
    {bst : Bucketset} (hm : sv'.m.bucketsets = sv.m.bucketsets ++ [bst])
    (hst : sv'.st.sets = sv.st.sets) : SetsNamed sv' names where
  size_eq := by rw [hst, h.size_eq]
  named := by
    intro i s hi
    obtain ⟨a, b, hat, hb, hrep⟩ := h.named i s hi
    refine ⟨a, b, by rw [hst, hat], ?_, hrep⟩
    unfold Memory.bucketset at hb ⊢
    dsimp only at hb ⊢
    split at hb
    · rename_i b' hb'
      have ha : a < sv.m.bucketsets.length := (List.getElem?_eq_some_iff.1 hb').1
      rw [hm, List.getElem?_append_left ha, hb']
      exact hb
    · cases hb

/-- A set whose pointer is pushed behind the others adds its name to theirs. -/
theorem SetsNamed.push {sv sv' : Server} {names : List Bytes} (h : SetsNamed sv names)
    (hsize : sv'.st.sets.size = sv.st.sets.size + 1)
    (hold : ∀ i < sv.st.sets.size, vectorAt sv'.st.sets i = vectorAt sv.st.sets i)
    {bst : Bucketset} {s : Bytes} (hm : sv'.m.bucketsets = sv.m.bucketsets ++ [bst])
    (hnew : vectorAt sv'.st.sets sv.st.sets.size = some sv.m.bucketsets.length)
    (hrep : bst.setName.Represents s) : SetsNamed sv' (names ++ [s]) where
  size_eq := by simp [hsize, h.size_eq]
  named := by
    intro i t hi
    rcases Nat.lt_or_ge i names.length with hlt | hge
    · rw [List.getElem?_append_left hlt] at hi
      have hkeep : SetsNamed { sv' with st := sv.st } names := h.of_bucketsets hm rfl
      obtain ⟨a, b, hat, hb, hrep'⟩ := hkeep.named i t hi
      exact ⟨a, b, by rw [hold i (by rw [h.size_eq]; exact hlt)]; exact hat, hb, hrep'⟩
    · have hi' : i = names.length := by
        have := (List.getElem?_eq_some_iff.1 hi).1
        rw [List.length_append, List.length_singleton] at this
        omega
      subst hi'
      rw [List.getElem?_concat_length] at hi
      cases hi
      refine ⟨sv.m.bucketsets.length, bst, h.size_eq ▸ hnew, ?_, hrep⟩
      simp [Memory.bucketset, hm]

/-- **The store refines the table of its requests**: handling a request registers its name, and
leaves the slots in use alone. -/
theorem handlePutBucketset_named {sv sv' : Server} {names : List Bytes} (h : StoreInv sv names)
    {rq : PutBucketset} (hok : putBucketset sv rq = .ok sv') :
    StoreInv sv' (prefixCover.register scanReach storeRoom names rq.name) ∧
      ∀ i < names.length, vectorAt sv'.st.sets i = vectorAt sv.st.sets i := by
  rw [putBucketset, handlePutBucketset, PutBucketset.field] at hok
  rw [scanSets_eq h.toSetsNamed rq.noNul, Outcome.ok_bind] at hok
  cases hslot : prefixCover.slot scanReach names rq.name with
  | some i =>
      obtain ⟨-, r, hr, -⟩ := Cover.exists_of_slot hslot
      obtain ⟨a, bst, hat, -⟩ := h.named i r hr
      have hlt : i < names.length := (List.getElem?_eq_some_iff.1 hr).1
      have hsize := h.size_eq
      rw [hslot, Option.bind_some, hat, if_neg (by simp; omega)] at hok
      cases hok
      rw [Cover.register_of_slot (by rw [hslot]; rfl)]
      exact ⟨h, fun _ _ => rfl⟩
  | none =>
      rw [hslot, Option.bind_none, if_pos (Or.inl rfl)] at hok
      simp only [Outcome.bind_eq_ok] at hok
      obtain ⟨⟨m', fs', a⟩, hmade, ⟨vec, status⟩, hpush, hok⟩ := hok
      cases hok
      obtain ⟨bst, hm, ha, ⟨st, hname⟩, -, -⟩ := bucketsetCreate_ok hmade
      obtain ⟨se, hse, hrep⟩ := sliceInit_cstr rq.noNul rq.rest
      rw [hse] at hname
      cases hname
      obtain ⟨k, hk⟩ := h.cap_pow
      have hsize := h.size_eq
      have hcap : ∃ k', vec.cap = 2 ^ k' := by
        rcases vectorPushBack_cap hpush with hsame | hdouble
        · exact ⟨k, hsame.trans hk⟩
        · exact ⟨k + 1, by rw [hdouble, hk, Nat.pow_succ]⟩
      rcases Nat.lt_or_ge sv.st.sets.size storeRoom with hroom | hfull
      · have hpos : 0 < sv.st.sets.cap := hk ▸ Nat.two_pow_pos k
        have hstatus := vectorPushBack_status hpos hroom hpush
        rw [Cover.register, if_pos ⟨hslot, by omega⟩]
        rcases vectorPushBack_ok hpush with ⟨-, hbad⟩ | ⟨-, hsize', -, hnew, hold⟩
        · omega
        · rw [ha] at hnew
          exact ⟨⟨h.toSetsNamed.push hsize' hold hm hnew hrep, hcap⟩,
            fun i hi => hold i (by omega)⟩
      · have hsame := vectorPushBack_full hk hfull hpush
        rw [Cover.register, if_neg (by omega)]
        exact ⟨⟨h.toSetsNamed.of_bucketsets hm hsame, hcap⟩, fun i _ => by rw [hsame]⟩

/-- The store after a run of requests. -/
theorem run_named {rs : List PutBucketset} {sv sv' : Server} {names : List Bytes}
    (h : StoreInv sv names) (hrun : rs.foldlM putBucketset sv = .ok sv') :
    StoreInv sv' (registerAll (requested rs) names) ∧
      ∀ i < names.length, vectorAt sv'.st.sets i = vectorAt sv.st.sets i := by
  induction rs generalizing sv names with
  | nil =>
      have hss : sv = sv' := by simpa using hrun
      exact hss ▸ ⟨h, fun _ _ => rfl⟩
  | cons rq rs ih =>
      rw [List.foldlM_cons, Outcome.bind_eq_ok] at hrun
      obtain ⟨sv₁, hstep, hrest⟩ := hrun
      obtain ⟨h₁, hold₁⟩ := handlePutBucketset_named h hstep
      obtain ⟨h₂, hold₂⟩ := ih h₁ hrest
      refine ⟨h₂, ?_⟩
      intro i hi
      rw [hold₂ i (hi.trans_le (Cover.prefix_register names rq.name).length_le), hold₁ i hi]

/-- The store after a run from the start of the server. -/
theorem run_table {jsonLoads : Bytes → Option Json} {io : ConfIo} {ss : SdsStore}
    (hinit : sdsStoreInit jsonLoads io = .ok ss) {fs : Fs} {rs : List PutBucketset} {sv : Server}
    (hrun : rs.foldlM putBucketset (Server.start fs ss) = .ok sv) :
    StoreInv sv (prefixCover.table scanReach storeRoom (requested rs)) :=
  (run_named (storeInv_start hinit fs) hrun).1

theorem noNul_of_requested {rs : List PutBucketset} {t : Bytes} (ht : t ∈ requested rs) :
    CString.NoNul t := by
  obtain ⟨rq, -, rfl⟩ := List.mem_map.1 ht
  exact rq.noNul

/-! ### Runs that return -/

/-- The configuration asks for no buckets, and its directory reads back. -/
def Conf.Ready (cf : Conf) : Prop :=
  cf.bucketSize = 0 ∧ ∃ r, sliceInit (sliceValue cf.dataDir) = .ok r

/-- With such a configuration, every request is handled. -/
theorem putBucketset_isOk {sv : Server} {names : List Bytes} (h : StoreInv sv names)
    (hcf : sv.st.cf.Ready) (rq : PutBucketset) :
    ∃ sv', putBucketset sv rq = .ok sv' ∧ sv'.st.cf = sv.st.cf := by
  rw [putBucketset, handlePutBucketset, PutBucketset.field]
  rw [scanSets_eq h.toSetsNamed rq.noNul, Outcome.ok_bind]
  split
  · obtain ⟨hzero, dir, hdir⟩ := hcf
    obtain ⟨name, hname, -⟩ := sliceInit_cstr rq.noNul rq.rest
    obtain ⟨k, hk⟩ := h.cap_pow
    have hpos : 0 < sv.st.sets.cap := hk ▸ Nat.two_pow_pos k
    have hn : (UInt64.ofNat (CInt.toUInt64 sv.st.cf.bucketSize)).toNat = 0 := by rw [hzero]; rfl
    have hserves : callocServes 0 := by decide
    obtain ⟨vec, hvec⟩ : ∃ vec : CVector Addr, _ := vectorInit_isOk hserves
    obtain ⟨p, hpush⟩ := vectorPushBack_isOk hpos sv.m.bucketsets.length
    simp only [bucketsetCreate, hn, hvec, hdir, hname, List.range_zero, List.foldlM_nil,
      Outcome.pure_eq_ok, Outcome.ok_bind, hpush]
    exact ⟨_, rfl, rfl⟩
  · exact ⟨sv, rfl, rfl⟩

theorem run_isOk {sv : Server} {names : List Bytes} (h : StoreInv sv names) (hcf : sv.st.cf.Ready)
    (rs : List PutBucketset) :
    ∃ sv', rs.foldlM putBucketset sv = .ok sv' ∧ sv'.st.cf = sv.st.cf := by
  induction rs generalizing sv names with
  | nil => exact ⟨sv, rfl, rfl⟩
  | cons rq rs ih =>
      obtain ⟨sv₁, hstep, hcf₁⟩ := putBucketset_isOk h hcf rq
      obtain ⟨sv', hrest, hcf'⟩ := ih (handlePutBucketset_named h hstep).1 (hcf₁ ▸ hcf)
      refine ⟨sv', ?_, hcf'.trans hcf₁⟩
      rw [List.foldlM_cons, hstep, Outcome.ok_bind, hrest]

/-- A configuration that was read is such a configuration as soon as its directory is none. -/
theorem sdsStoreInit_ready : ∃ ss, sdsStoreInit parseEmptyObject emptyObjectIo = .ok ss ∧
    ss.cf.Ready := by
  obtain ⟨ss, hss, hdir⟩ := sdsStoreInit_emptyObject
  refine ⟨ss, hss, (confCreate_ok (sdsStoreInit_ok hss).2.2).1, ?_⟩
  rw [hdir]
  exact ⟨_, rfl⟩

/-- A request for a name, with the other bytes of its field zero. -/
def requestFor (name : Bytes) (h : CString.NoNul name) : PutBucketset where
  name := name
  rest := List.replicate (RequestPutBucketset.size - 1 - name.length) 0
  noNul := h
  chance := fun _ => { openFails := false, fallocateFails := false }

/-! ### Exact lookup -/

/-- The store's vector shows, at the position `i`, a set with the name `s`. -/
def ShowsName (sv : Server) (s : Bytes) (i : ℕ) : Prop :=
  ∃ a bst, vectorAt sv.st.sets i = some a ∧ sv.m.bucketset (some a) = .ok bst ∧
    bst.setName.Represents s

/-- The scan for a name selects a set exactly when the store has one with that name, and the one it
selects has that name. -/
def LookupExact (sv : Server) (t : Bytes) : Prop :=
  ∀ v, ∃ found, scanSets sv (.mem (t ++ 0 :: v)) = .ok found ∧
    (found.isSome ↔ ∃ i, ShowsName sv t i) ∧
    ∀ a, found = some a → ∃ bst, sv.m.bucketset (some a) = .ok bst ∧ bst.setName.Represents t

/-- The store has exactly one set for each of the names. -/
def OnePerName (sv : Server) (names : List Bytes) : Prop := ∀ t ∈ names, ∃! i, ShowsName sv t i

section Exact

variable {sv : Server} {names : List Bytes}

theorem showsName_iff (h : SetsNamed sv names) {s : Bytes} {i : ℕ} :
    ShowsName sv s i ↔ names[i]? = some s := by
  constructor
  · rintro ⟨a, bst, hat, hbst, hrep⟩
    have hlt : i < names.length := h.size_eq ▸ lt_size_of_vectorAt hat
    obtain ⟨a', bst', hat', hbst', hrep'⟩ := h.named i _ (List.getElem?_eq_getElem hlt)
    rw [hat] at hat'
    cases hat'
    rw [hbst] at hbst'
    cases hbst'
    rw [List.getElem?_eq_getElem hlt, hrep'.unique hrep]
  · intro hi
    exact h.named i s hi

/-- The scan is exact for a name exactly when the name is a set's name and is the first to match,
or nothing matches. -/
theorem lookupExact_iff (h : SetsNamed sv names) {t : Bytes} (ht : CString.NoNul t) :
    LookupExact sv t ↔
      match prefixCover.slot scanReach names t with
      | some i => names[i]? = some t
      | none => t ∉ names := by
  have hmem : (∃ i, ShowsName sv t i) ↔ t ∈ names := by
    simp only [showsName_iff h, List.mem_iff_getElem?]
  rw [LookupExact]
  simp only [scanSets_eq h ht, hmem, Except.ok.injEq, exists_eq_left']
  cases hslot : prefixCover.slot scanReach names t with
  | none => simp
  | some i =>
      obtain ⟨-, r, hr, -⟩ := Cover.exists_of_slot hslot
      obtain ⟨a, bst, hat, hbst, hrep⟩ := h.named i r hr
      rw [Option.bind_some, hat]
      constructor
      · intro hexact
        obtain ⟨-, hname⟩ := hexact []
        obtain ⟨bst', hbst', hrep'⟩ := hname a rfl
        rw [hbst] at hbst'
        cases hbst'
        exact hr.trans (congrArg some (hrep.unique hrep'))
      · intro hit v
        have hrt : r = t := Option.some_inj.1 (hr.symm.trans hit)
        subst hrt
        refine ⟨iff_of_true rfl (List.mem_of_getElem? hit), ?_⟩
        intro b hb
        cases hb
        exact ⟨bst, hbst, hrep⟩

/-- When the scan is exact for the names of the store and they are distinct, the index reaches them
all: a set further on would be looked up in vain. -/
theorem length_le_of_lookupExact (h : SetsNamed sv names) (hnul : ∀ t ∈ names, CString.NoNul t)
    (hnodup : names.Nodup) (hlook : ∀ t ∈ names, LookupExact sv t) :
    names.length ≤ scanReach := by
  by_contra hlong
  have hlt : scanReach < names.length := by omega
  have hmem := List.getElem_mem hlt
  have hfound := (lookupExact_iff h (hnul _ hmem)).1 (hlook _ hmem)
  split at hfound
  · rename_i i hslot
    obtain ⟨hi, -⟩ := Cover.exists_of_slot hslot
    obtain ⟨hil, hie⟩ := List.getElem?_eq_some_iff.1 hfound
    have := (hnodup.getElem_inj_iff).1 hie
    omega
  · exact hfound hmem

theorem onePerName_iff (h : SetsNamed sv names) {l : List Bytes} (hl : ∀ t ∈ names, t ∈ l) :
    OnePerName sv l ↔ (∀ t ∈ l, t ∈ names) ∧ names.Nodup := by
  rw [OnePerName]
  simp only [showsName_iff h]
  constructor
  · intro hone
    refine ⟨fun t ht => List.mem_iff_getElem?.2 (hone t ht).exists, ?_⟩
    refine List.nodup_iff_getElem?_ne_getElem?.2 ?_
    intro i j hij hj heq
    have hi := List.getElem?_eq_getElem (hij.trans hj)
    have hmem := hl _ (List.getElem_mem (hij.trans hj))
    have := (hone _ hmem).unique hi (heq ▸ hi)
    omega
  · rintro ⟨hall, hnodup⟩ t ht
    obtain ⟨i, hi⟩ := List.mem_iff_getElem?.1 (hall t ht)
    refine ⟨i, hi, ?_⟩
    intro j hj
    obtain ⟨hilt, hi'⟩ := List.getElem?_eq_some_iff.1 hi
    obtain ⟨hjlt, hj'⟩ := List.getElem?_eq_some_iff.1 hj
    exact (hnodup.getElem_inj_iff).1 (hj'.trans hi'.symm)

end Exact

/-- The entry a key resolves to when the whole table is searched. -/
theorem slot_getElem? {names : List Bytes} (hlen : names.length ≤ scanReach) (t : Bytes) :
    names.find? (prefixCover.covers · t) =
      (prefixCover.slot scanReach names t).bind fun i => names[i]? := by
  rw [Cover.slot, List.take_of_length_le hlen, List.find?_eq_bind_findIdx?_getElem?]

theorem scanReach_lt : scanReach < storeRoom := by decide

/-- The scan is exact for the requested names and one more, and there is one set a name, exactly
when no requested name is shadowed and the index reaches them all. -/
theorem named_exact_iff {sv : Server} {ts : List Bytes}
    (h : SetsNamed sv (prefixCover.table scanReach storeRoom ts)) (hts : ∀ t ∈ ts, CString.NoNul t)
    {s : Bytes} (hs : CString.NoNul s) :
    ((∀ t ∈ s :: ts, LookupExact sv t) ∧ OnePerName sv ts) ↔
      (∀ t ∈ s :: ts, prefixCover.Exact ts t) ∧ ts.toFinset.card ≤ scanReach := by
  have hnul : ∀ t ∈ s :: ts, CString.NoNul t := by
    intro t ht
    rcases List.mem_cons.1 ht with rfl | ht
    · exact hs
    · exact hts t ht
  have hsub : ∀ t ∈ prefixCover.table scanReach storeRoom ts, t ∈ ts :=
    fun _ => Cover.mem_of_mem_table
  have hone := onePerName_iff h hsub
  have hexact := fun t ht => lookupExact_iff h (hnul t ht)
  generalize hl : prefixCover.table scanReach storeRoom ts = l at h hsub hone hexact
  constructor
  · rintro ⟨hlook, hper⟩
    obtain ⟨hall, hnodup⟩ := hone.1 hper
    have hmem : ∀ t ∈ l, t ∈ s :: ts := fun t ht => List.mem_cons_of_mem _ (hsub t ht)
    have hlen := length_le_of_lookupExact h (fun t ht => hnul t (hmem t ht)) hnodup
      fun t ht => hlook t (hmem t ht)
    have hfind := Cover.find?_table scanReach_lt (hl ▸ hlen) (hl ▸ hall)
    constructor
    · intro t ht r hr
      rw [← hfind t, hl, slot_getElem? hlen] at hr
      have hfound := (hexact t ht).1 (hlook t ht)
      split at hfound
      · rename_i i hslot
        rw [hslot, Option.bind_some, hfound] at hr
        exact (Option.some_inj.1 hr).symm
      · rename_i hslot
        rw [hslot] at hr
        cases hr
    · rw [← Cover.length_table (hl ▸ hlen) (hl ▸ hall), hl]
      exact hlen
  · rintro ⟨hfirst, hcard⟩
    obtain ⟨hall, hlength⟩ := Cover.table_of_exact scanReach_lt
      (fun t ht => hfirst t (List.mem_cons_of_mem _ ht)) hcard
    have hlen : l.length ≤ scanReach := by rw [← hl, hlength]; exact hcard
    have hfind := Cover.find?_table scanReach_lt (hl ▸ hlen) hall
    have hnodup : l.Nodup := by
      rw [← hl] at hlen ⊢
      exact Cover.nodup_table hlen
    rw [hl] at hall
    refine ⟨fun t ht => (hexact t ht).2 ?_, hone.2 ⟨hall, hnodup⟩⟩
    split
    · rename_i i hslot
      obtain ⟨-, r, hr, -⟩ := Cover.exists_of_slot hslot
      have := hfirst t ht r (by rw [← hfind t, hl, slot_getElem? hlen, hslot]; exact hr)
      rw [hr, this]
    · rename_i hslot
      intro hmem
      have hsome := Cover.slot_of_mem (c := prefixCover) (w := scanReach) (s := t)
        (by rwa [List.take_of_length_le hlen])
      rw [hslot] at hsome
      cases hsome

/-- **The scan is exact exactly when no name is shadowed by an earlier one.**  After any sequence of
`REQ_PUT_BUCKETSET` requests and for any name: the scan selects the set of that name and of every
requested name, if there is one, and there is one set for each requested name, exactly when the
first requested name that is a prefix of one of these names is that name itself, and the index
reaches the requested names. -/
theorem scan_exact_iff {jsonLoads : Bytes → Option Json} {io : ConfIo} {ss : SdsStore}
    (hinit : sdsStoreInit jsonLoads io = .ok ss) {fs : Fs} {rs : List PutBucketset} {sv : Server}
    (hrun : rs.foldlM putBucketset (Server.start fs ss) = .ok sv) {s : Bytes}
    (hs : CString.NoNul s) :
    ((∀ t ∈ s :: requested rs, LookupExact sv t) ∧ OnePerName sv (requested rs)) ↔
      (∀ t ∈ s :: requested rs, prefixCover.Exact (requested rs) t) ∧
        (requested rs).toFinset.card ≤ scanReach :=
  named_exact_iff (run_table hinit hrun).toSetsNamed (fun _ => noNul_of_requested) hs

/-- Requests for the names `a` and `ab`, in this order. -/
def shadowedRequests : List PutBucketset :=
  [requestFor [97] (by decide), requestFor [97, 98] (by decide)]

/-- The result applied to these requests. -/
theorem scan_exact_iff_shadowed :
    ∃ ss sv, sdsStoreInit parseEmptyObject emptyObjectIo = .ok ss ∧
      shadowedRequests.foldlM putBucketset (Server.start Fs.empty ss) = .ok sv ∧
      (((∀ t ∈ [97, 98] :: requested shadowedRequests, LookupExact sv t) ∧
          OnePerName sv (requested shadowedRequests)) ↔
        (∀ t ∈ [97, 98] :: requested shadowedRequests,
          prefixCover.Exact (requested shadowedRequests) t) ∧
          (requested shadowedRequests).toFinset.card ≤ scanReach) := by
  obtain ⟨ss, hss, hcf⟩ := sdsStoreInit_ready
  obtain ⟨sv, hrun, -⟩ := run_isOk (storeInv_start hss Fs.empty) hcf shadowedRequests
  exact ⟨ss, sv, hss, hrun, scan_exact_iff hss hrun (by decide)⟩

/-- After a request for `a`, one for `ab` makes no set, and `ab` is found under `a`. -/
theorem shadowedRequests_not_exact :
    ∃ ss sv, sdsStoreInit parseEmptyObject emptyObjectIo = .ok ss ∧
      shadowedRequests.foldlM putBucketset (Server.start Fs.empty ss) = .ok sv ∧
      ¬ ((∀ t ∈ [97, 98] :: requested shadowedRequests, LookupExact sv t) ∧
        OnePerName sv (requested shadowedRequests)) := by
  obtain ⟨ss, hss, hcf⟩ := sdsStoreInit_ready
  obtain ⟨sv, hrun, -⟩ := run_isOk (storeInv_start hss Fs.empty) hcf shadowedRequests
  refine ⟨ss, sv, hss, hrun, ?_⟩
  have hs : CString.NoNul [97, 98] := by decide
  rw [named_exact_iff (run_table hss hrun).toSetsNamed (fun _ => noNul_of_requested) hs]
  rintro ⟨hfirst, -⟩
  have hshadow :
      (requested shadowedRequests).find? (prefixCover.covers · [97, 98]) = some [97] := by
    decide
  have := hfirst [97, 98] (by simp) [97] hshadow
  exact absurd this (by decide)

/-! ### Retries and later requests -/

/-- What is expected of handling the request `rq` in the state `sv`, which leads to `sv'`: its name
is found, handling it again changes nothing, and no sequence of requests changes the set that any
name resolves to. -/
structure RetrySafe (sv : Server) (rq : PutBucketset) (sv' : Server) : Prop where
  found : ∃ a, scanSets sv' rq.field = .ok (some a)
  again : ∀ chance, putBucketset sv' { rq with chance := chance } = .ok sv'
  stable : ∀ (rs : List PutBucketset) (sv'' : Server), rs.foldlM putBucketset sv = .ok sv'' →
    ∀ t v a, CString.NoNul t → scanSets sv (.mem (t ++ 0 :: v)) = .ok (some a) →
      scanSets sv'' (.mem (t ++ 0 :: v)) = .ok (some a)

section Retry

variable {sv sv' : Server} {names : List Bytes}

/-- The scan selects a set exactly when the name resolves in the table. -/
theorem exists_scanSets_iff (h : SetsNamed sv names) {t : Bytes} (ht : CString.NoNul t)
    (v : Bytes) : (∃ a, scanSets sv (.mem (t ++ 0 :: v)) = .ok (some a)) ↔
      (prefixCover.slot scanReach names t).isSome := by
  rw [scanSets_eq h ht]
  cases hslot : prefixCover.slot scanReach names t with
  | none => simp
  | some i =>
      obtain ⟨-, r, hr, -⟩ := Cover.exists_of_slot hslot
      obtain ⟨a, -, hat, -⟩ := h.named i r hr
      simp [hat]

/-- A name resolves when a set within reach of the index has a prefix of it as its name. -/
theorem slot_isSome_iff (h : SetsNamed sv names) {t : Bytes} :
    (prefixCover.slot scanReach names t).isSome ↔
      ∃ i s, i < 2 ^ 31 ∧ ShowsName sv s i ∧ s <+: t := by
  simp only [showsName_iff h]
  constructor
  · intro hsome
    obtain ⟨i, hslot⟩ := Option.isSome_iff_exists.1 hsome
    obtain ⟨hi, r, hr, hcov⟩ := Cover.exists_of_slot hslot
    exact ⟨i, r, hi, hr, List.isPrefixOf_iff_prefix.1 hcov⟩
  · rintro ⟨i, s, hi, hs, hpre⟩
    rw [Option.isSome_iff_ne_none, Ne, Cover.slot_eq_none_iff]
    intro hnone
    have hreach : i < scanReach := hi
    have hmem : s ∈ names.take scanReach := by
      rw [List.mem_iff_getElem?]
      exact ⟨i, by rw [List.getElem?_take_of_lt hreach, hs]⟩
    have hcov : prefixCover.covers s t = true := List.isPrefixOf_iff_prefix.2 hpre
    rw [hnone s hmem] at hcov
    cases hcov

/-- A request whose name resolves changes nothing. -/
theorem putBucketset_of_slot (h : SetsNamed sv names) {rq : PutBucketset}
    (hslot : (prefixCover.slot scanReach names rq.name).isSome) :
    putBucketset sv rq = .ok sv := by
  obtain ⟨a, ha⟩ := (exists_scanSets_iff h rq.noNul rq.rest).2 hslot
  obtain ⟨i, hi⟩ := Option.isSome_iff_exists.1 hslot
  obtain ⟨-, r, hr, -⟩ := Cover.exists_of_slot hi
  have hlt : i < names.length := (List.getElem?_eq_some_iff.1 hr).1
  have hsize := h.size_eq
  rw [putBucketset, handlePutBucketset, PutBucketset.field]
  rw [ha, Outcome.ok_bind, if_neg (by simp; omega)]

/-- **Resolution is stable**: no run of requests changes the set that a name resolves to. -/
theorem scanSets_run (h : StoreInv sv names) {rs : List PutBucketset}
    (hrun : rs.foldlM putBucketset sv = .ok sv') {t : Bytes} (ht : CString.NoNul t) {v : Bytes}
    {a : Addr} (ha : scanSets sv (.mem (t ++ 0 :: v)) = .ok (some a)) :
    scanSets sv' (.mem (t ++ 0 :: v)) = .ok (some a) := by
  obtain ⟨h', hold⟩ := run_named h hrun
  rw [scanSets_eq h.toSetsNamed ht] at ha
  rw [scanSets_eq h'.toSetsNamed ht, ← ha]
  cases hslot : prefixCover.slot scanReach names t with
  | none =>
      rw [hslot] at ha
      cases ha
  | some i =>
      obtain ⟨-, r, hr, -⟩ := Cover.exists_of_slot hslot
      rw [registerAll, Cover.slot_foldl_register hslot, Option.bind_some, Option.bind_some,
        hold i (List.getElem?_eq_some_iff.1 hr).1]

/-- Creation is retry-safe exactly when the name resolves already, or the table is within reach. -/
theorem retrySafe_iff_slot (h : StoreInv sv names) {rq : PutBucketset}
    (hstep : putBucketset sv rq = .ok sv') :
    RetrySafe sv rq sv' ↔
      (prefixCover.slot scanReach names rq.name).isSome ∨ names.length < scanReach := by
  have h' := (handlePutBucketset_named h hstep).1.toSetsNamed
  have hfound := (exists_scanSets_iff h' rq.noNul rq.rest).trans
    (Cover.slot_register_self scanReach_lt.le)
  constructor
  · intro hsafe
    exact hfound.1 hsafe.found
  · intro hcond
    have hslot := (Cover.slot_register_self (c := prefixCover) scanReach_lt.le).2 hcond
    exact
      { found := hfound.2 hcond
        again := fun _ => putBucketset_of_slot h' hslot
        stable := fun rs sv'' hrun t v a ht ha => scanSets_run h hrun ht ha }

end Retry

/-- **Creation is retry-safe exactly within reach of the index.**  In any store that requests lead
to, and for any request that is handled: the name is found afterwards, handling the request again
changes nothing, and no later requests change what any name resolves to, exactly when one of the
first `2 ^ 31` sets has a prefix of the name as its name, or there are fewer than `2 ^ 31` sets. -/
theorem retrySafe_iff {jsonLoads : Bytes → Option Json} {io : ConfIo} {ss : SdsStore}
    (hinit : sdsStoreInit jsonLoads io = .ok ss) {fs : Fs} {rs : List PutBucketset}
    {sv sv' : Server} (hrun : rs.foldlM putBucketset (Server.start fs ss) = .ok sv)
    {rq : PutBucketset} (hstep : putBucketset sv rq = .ok sv') :
    RetrySafe sv rq sv' ↔
      (∃ i s, i < 2 ^ 31 ∧ ShowsName sv s i ∧ s <+: rq.name) ∨ sv.st.sets.size < 2 ^ 31 := by
  have h := run_table hinit hrun
  rw [retrySafe_iff_slot h hstep, slot_isSome_iff h.toSetsNamed, h.size_eq]
  rfl

/-- The result applied to a first request. -/
theorem retrySafe_iff_first :
    ∃ ss sv', sdsStoreInit parseEmptyObject emptyObjectIo = .ok ss ∧
      (RetrySafe (Server.start Fs.empty ss) (requestFor [97] (by decide)) sv' ↔
        (∃ i s, i < 2 ^ 31 ∧ ShowsName (Server.start Fs.empty ss) s i ∧ s <+: [97]) ∨
          (Server.start Fs.empty ss).st.sets.size < 2 ^ 31) := by
  obtain ⟨ss, hss, hcf⟩ := sdsStoreInit_ready
  have hname : CString.NoNul [97] := by decide
  obtain ⟨sv', hstep, -⟩ :=
    putBucketset_isOk (storeInv_start hss Fs.empty) hcf (requestFor [97] hname)
  have hrun : ([] : List PutBucketset).foldlM putBucketset (Server.start Fs.empty ss) =
      .ok (Server.start Fs.empty ss) := rfl
  exact ⟨ss, sv', hss, retrySafe_iff hss hrun hstep⟩

/-! ### A store beyond the reach of the index -/

/-- The `k`-th name of four bytes: the digits of `k` to the base 255, none of them zero. -/
def fourByteName (k : ℕ) : Bytes :=
  [UInt8.ofNat (k % 255 + 1), UInt8.ofNat (k / 255 % 255 + 1),
    UInt8.ofNat (k / 65025 % 255 + 1), UInt8.ofNat (k / 16581375 % 255 + 1)]

theorem digit_toNat (k : ℕ) : (UInt8.ofNat (k % 255 + 1)).toNat = k % 255 + 1 := by
  rw [UInt8.toNat_ofNat']
  omega

theorem fourByteName_noNul (k : ℕ) : CString.NoNul (fourByteName k) := by
  have hdigit : ∀ j : ℕ, UInt8.ofNat (j % 255 + 1) ≠ 0 := by
    intro j hj
    have := digit_toNat j
    rw [hj] at this
    simp at this
  rw [fourByteName]
  simp only [CString.noNul_cons]
  exact ⟨hdigit _, hdigit _, hdigit _, hdigit _, CString.noNul_nil⟩

theorem fourByteName_inj {j k : ℕ} (hj : j < 255 ^ 4) (hk : k < 255 ^ 4)
    (h : fourByteName j = fourByteName k) : j = k := by
  have hdigit : ∀ {a b : ℕ}, UInt8.ofNat (a % 255 + 1) = UInt8.ofNat (b % 255 + 1) →
      a % 255 = b % 255 := by
    intro a b hab
    have := congrArg UInt8.toNat hab
    rw [digit_toNat, digit_toNat] at this
    omega
  simp only [fourByteName, List.cons.injEq, and_true] at h
  obtain ⟨h0, h1, h2, h3⟩ := h
  have := hdigit h0
  have := hdigit h1
  have := hdigit h2
  have := hdigit h3
  omega

/-- No name of four bytes covers another. -/
theorem fourByteName_not_covers {j k : ℕ} (hj : j < 255 ^ 4) (hk : k < 255 ^ 4) (hne : j ≠ k) :
    prefixCover.covers (fourByteName j) (fourByteName k) = false := by
  by_contra hcov
  rw [Bool.not_eq_false] at hcov
  have hpre := List.isPrefixOf_iff_prefix.1 hcov
  exact hne (fourByteName_inj hj hk (hpre.eq_of_length rfl))

/-- Requests for the first `n` names of four bytes. -/
def fourByteRequests (n : ℕ) : List PutBucketset :=
  (List.range n).map fun k => requestFor (fourByteName k) (fourByteName_noNul k)

theorem requested_fourByteRequests (n : ℕ) :
    requested (fourByteRequests n) = (List.range n).map fourByteName := by
  simp [requested, fourByteRequests, requestFor]

/-- They make the table of these names. -/
theorem table_fourByteRequests {n : ℕ} (hn : n ≤ 255 ^ 4) :
    prefixCover.table scanReach storeRoom (requested (fourByteRequests n)) =
      (List.range n).map fourByteName := by
  have hroom : 255 ^ 4 ≤ storeRoom := by decide
  rw [requested_fourByteRequests, Cover.table_of_pairwise]
  · rw [List.pairwise_map]
    refine List.pairwise_lt_range.imp_of_mem ?_
    intro j k hj hk hlt
    rw [List.mem_range] at hj hk
    exact fourByteName_not_covers (by omega) (by omega) (by omega)
  · rw [List.length_map, List.length_range]
    omega

/-- When the index reaches no further, one more of these names is not found after its request. -/
theorem fourByteRequests_not_retrySafe {n : ℕ} (hreach : scanReach ≤ n) (hn : n < 255 ^ 4)
    {ss : SdsStore} (hss : sdsStoreInit parseEmptyObject emptyObjectIo = .ok ss) {sv sv' : Server}
    (hrun : (fourByteRequests n).foldlM putBucketset (Server.start Fs.empty ss) = .ok sv)
    (hstep : putBucketset sv (requestFor (fourByteName n) (fourByteName_noNul n)) = .ok sv') :
    ¬ RetrySafe sv (requestFor (fourByteName n) (fourByteName_noNul n)) sv' := by
  have h := run_table hss hrun
  rw [table_fourByteRequests hn.le] at h
  rw [retrySafe_iff_slot h hstep, not_or, Option.not_isSome_iff_eq_none, Cover.slot_eq_none_iff]
  constructor
  · intro r hr
    obtain ⟨k, hk, rfl⟩ := List.mem_map.1 (List.mem_of_mem_take hr)
    rw [List.mem_range] at hk
    exact fourByteName_not_covers (by omega) hn (by omega)
  · rw [List.length_map, List.length_range]
    omega

/-- After requests for `2 ^ 31` names of four bytes, the next one is not found. -/
theorem manyRequests_not_retrySafe :
    ∃ ss sv sv', sdsStoreInit parseEmptyObject emptyObjectIo = .ok ss ∧
      (fourByteRequests scanReach).foldlM putBucketset (Server.start Fs.empty ss) = .ok sv ∧
      putBucketset sv (requestFor (fourByteName scanReach) (fourByteName_noNul scanReach)) =
        .ok sv' ∧
      ¬ RetrySafe sv (requestFor (fourByteName scanReach) (fourByteName_noNul scanReach)) sv' := by
  obtain ⟨ss, hss, hcf⟩ := sdsStoreInit_ready
  have hn : scanReach < 255 ^ 4 := by decide
  generalize hw : scanReach = n at hn ⊢
  obtain ⟨sv, hrun, hcf'⟩ := run_isOk (storeInv_start hss Fs.empty) hcf (fourByteRequests n)
  obtain ⟨sv', hstep, -⟩ := putBucketset_isOk (run_table hss hrun) (hcf' ▸ hcf)
    (requestFor (fourByteName n) (fourByteName_noNul n))
  exact ⟨ss, sv, sv', hss, hrun, hstep, fourByteRequests_not_retrySafe hw.le hn hss hrun hstep⟩
