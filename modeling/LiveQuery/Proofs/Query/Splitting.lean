import LiveQuery.Proofs.Json.Members
import LiveQuery.Proofs.Query.Identity

/-!
# Splitting a bag of options

A bag mixes params and cache controls, and a control may be spelled in several ways, be left out or
mean nothing. Splitting the bag normalises it (`Options.split_normalises`): params are what is left
without the controls, and a control has the value it spells or else its default
(`Config.ReadFrom`). If the bag is built again from both halves, one call for each param and
each control, in whatever order the calls are made, then it is split into the same halves; and two
bags that differ only in how their controls are spelled have one id.
-/

namespace LiveQuery

/-! ## Names of modes and policies -/

/-- A value says a name if it is the name, or an object with `null` under it and nothing else. -/
def Json.Says (v : Json) (name : String) : Prop := v = .string name ∨ v = .object [(name, .null)]

theorem Json.named?_eq_some_iff {α : Type} {ofName? : String → Option α} {name : α → String}
    (inverse : ∀ s a, ofName? s = some a ↔ s = name a) (v : Json) (a : α) :
    Json.named? ofName? v = some a ↔ v.Says (name a) := by
  unfold Json.named? Json.Says
  split
  · simp [inverse]
  · simp [inverse]
  · next hstring hobject =>
    simp only [reduceCtorEq, false_iff, not_or]
    exact ⟨hstring (name a), hobject (name a)⟩

theorem RealtimeMode.ofName?_eq_some_iff (s : String) (mode : RealtimeMode) :
    ofName? s = some mode ↔ s = mode.name := by
  constructor
  · intro named
    unfold ofName? at named
    split at named <;> first | cases named; rfl | cases named
  · rintro rfl
    cases mode <;> rfl

theorem FetchPolicy.ofName?_eq_some_iff (s : String) (policy : FetchPolicy) :
    ofName? s = some policy ↔ s = policy.name := by
  constructor
  · intro named
    unfold ofName? at named
    split at named <;> first | cases named; rfl | cases named
  · rintro rfl
    cases policy <;> rfl

/-! ## What a bag is split into -/

/-- A configuration has the controls of a bag: each has the value that the bag spells, and its
default if the bag spells none. -/
structure Config.ReadFrom (c : Config) (fs : Fields) : Prop where
  skip : c.skip = true ↔ Fields.get? fs "skip" = some (.bool true)
  realtime : ∀ mode ≠ .merge, c.realtime = mode ↔
    ∃ v, Fields.get? fs "realtime" = some v ∧ v.Says mode.name
  fetchPolicy : ∀ policy ≠ .staleWhileRevalidate, c.fetchPolicy = policy ↔
    ∃ v, Fields.get? fs "fetchPolicy" = some v ∧ v.Says policy.name
  allPages : c.allPages = true ↔ Fields.get? fs "allPages" = some (.bool true)

theorem QueryId.ofQuery_congr (d : Descriptor) {c k : Config} (agrees : c.Agrees k) :
    QueryId.ofQuery d c = QueryId.ofQuery d k := by
  unfold QueryId.ofQuery identityText
  rw [Config.toJson_eq_iff.mpr agrees]

namespace Options

variable {o p : Options} {service : String} {method : Method} {resourceId : Option ItemId}
variable {d e : Descriptor} {c k : Config}

theorem control_eq_iff {α : Type} {name : String} {read? : Json → Option α} {default a : α}
    (ne : a ≠ default) :
    o.control name read? default = a ↔
      ∃ v, Fields.get? o.fields name = some v ∧ read? v = some a := by
  have hget : ∀ found : Option α, found.getD default = a ↔ found = some a := fun found => by
    cases found with
    | none => simp [Ne.symm ne]
    | some b => simp
  unfold control
  rw [hget, Option.bind_eq_some_iff]

theorem bool?_eq_true (v : Json) : v.bool? = some true ↔ v = .bool true := by
  cases v <;> simp [Json.bool?]

theorem config_readFrom (o : Options) : o.config.ReadFrom o.fields where
  skip := by
    refine (control_eq_iff (by decide)).trans ?_
    simp [bool?_eq_true]
  realtime mode ne := by
    refine (control_eq_iff ne).trans ?_
    simp only [Json.named?_eq_some_iff RealtimeMode.ofName?_eq_some_iff]
  fetchPolicy policy ne := by
    refine (control_eq_iff ne).trans ?_
    simp only [Json.named?_eq_some_iff FetchPolicy.ofName?_eq_some_iff]
  allPages := by
    refine (control_eq_iff (by decide)).trans ?_
    simp [bool?_eq_true]

theorem get?_params (o : Options) (key : String) :
    Fields.get? o.params key = if key ∈ controlNames then none else Fields.get? o.fields key := by
  unfold params
  rw [Fields.get?_filter (fun name => decide (name ∉ controlNames))]
  by_cases h : key ∈ controlNames <;> simp [h]

theorem sorted_params (sorted : Fields.Sorted o.fields) : Fields.Sorted o.params :=
  List.Pairwise.filter _ sorted

theorem split_fst_params (o : Options) (service : String) (method : Method)
    (resourceId : Option ItemId) :
    (o.split service method resourceId).1.params.getD [] = o.params := by
  unfold split
  dsimp only
  split
  · next empty => exact (List.isEmpty_iff.mp empty).symm
  · rfl

theorem split_fst_congr (same : o.params = p.params) :
    (o.split service method resourceId).1 = (p.split service method resourceId).1 := by
  unfold split
  rw [same]

theorem split_params_eq_none :
    (o.split service method resourceId).1.params = none ↔ ∀ m ∈ o.fields, m.1 ∈ controlNames := by
  unfold split params
  dsimp only
  rw [ite_eq_left_iff]
  simp

end Options

/-! ## Building a bag -/

/-- A call that sets one field of a bag. -/
inductive Setting where
  | param (key : String) (value : Json)
  | skip (b : Bool)
  | realtime (mode : RealtimeMode)
  | fetchPolicy (policy : FetchPolicy)
  | allPages (b : Bool)

namespace Setting

def apply (o : Options) : Setting → Options
  | param key value => o.param key value
  | skip b => o.skip b
  | realtime mode => o.realtime mode
  | fetchPolicy policy => o.fetchPolicy policy
  | allPages b => o.allPages b

def member : Setting → String × Json
  | param key value => (key, value)
  | skip b => ("skip", .bool b)
  | realtime mode => ("realtime", .string mode.name)
  | fetchPolicy policy => ("fetchPolicy", .string policy.name)
  | allPages b => ("allPages", .bool b)

/-- The calls that set the four controls of a configuration. -/
def controls (c : Config) : List Setting :=
  [skip c.skip, realtime c.realtime, fetchPolicy c.fetchPolicy, allPages c.allPages]

/-- The calls that set the params of a descriptor and the controls of a configuration. -/
def restoring (d : Descriptor) (c : Config) : List Setting :=
  (d.params.getD []).map (fun m => param m.1 m.2) ++ controls c

theorem fields_apply (o : Options) (s : Setting) :
    (s.apply o).fields = Fields.insert o.fields s.member.1 s.member.2 := by
  cases s <;> rfl

theorem matcher_apply (o : Options) (s : Setting) : (s.apply o).matcher = o.matcher := by
  cases s <;> rfl

end Setting

namespace Options

def build (calls : List Setting) : Options := calls.foldl Setting.apply {}

theorem build_eq (calls : List Setting) :
    build calls = { fields := Fields.ofList (calls.map Setting.member) } := by
  have hfold : ∀ (calls : List Setting) (o : Options), calls.foldl Setting.apply o =
      { o with fields := Fields.merge o.fields (calls.map Setting.member) } := by
    intro calls
    induction calls with
    | nil => intro o; rfl
    | cons s calls ih =>
      intro o
      rw [List.foldl_cons, ih, Setting.fields_apply, Setting.matcher_apply]
      rfl
  exact hfold calls {}

theorem sorted_build (calls : List Setting) : Fields.Sorted (build calls).fields := by
  rw [build_eq]
  exact Fields.sorted_ofList _

/-- Some calls set params, none of them under the name of a control, and the controls of a
configuration; they may do so in any order. -/
structure Restores (calls : List Setting) (ps : Fields) (c : Config) : Prop where
  sorted : Fields.Sorted ps
  apart : ∀ m ∈ ps, m.1 ∉ controlNames
  perm : calls.Perm (ps.map (fun m => .param m.1 m.2) ++ Setting.controls c)

namespace Restores

variable {ps : Fields} {c : Config} {calls : List Setting}

/-- The bag that the calls build has just the fields that they set. -/
theorem fields_perm (h : Restores calls ps c) :
    (build calls).fields.Perm (ps ++ (Setting.controls c).map Setting.member) := by
  have hmembers : (calls.map Setting.member).Perm
      (ps ++ (Setting.controls c).map Setting.member) := by
    refine (h.perm.map Setting.member).trans (.of_eq ?_)
    rw [List.map_append, List.map_map]
    exact congrArg (· ++ _) (List.map_id ps)
  have hnames : Fields.names ((Setting.controls c).map Setting.member) = controlNames := rfl
  have hdistinct : (Fields.names (ps ++ (Setting.controls c).map Setting.member)).Nodup := by
    rw [Fields.names_append, hnames, List.nodup_append]
    refine ⟨h.sorted.nodup_names, by decide, fun name hname control hcontrol heq => ?_⟩
    obtain ⟨m, hm, rfl⟩ := List.mem_map.mp hname
    exact h.apart m hm (heq ▸ hcontrol)
  rw [build_eq]
  exact (Fields.ofList_perm ((hmembers.map Prod.fst).nodup_iff.mpr hdistinct)).trans hmembers

theorem params_eq (h : Restores calls ps c) : (build calls).params = ps := by
  refine (sorted_params (sorted_build calls)).eq_of_perm h.sorted ?_
  unfold params
  refine (h.fields_perm.filter _).trans (.of_eq ?_)
  have hkept : (ps.filter fun m => decide (m.1 ∉ controlNames)) = ps :=
    List.filter_eq_self.mpr fun m hm => decide_eq_true (h.apart m hm)
  have hdropped : (((Setting.controls c).map Setting.member).filter
      fun m => decide (m.1 ∉ controlNames)) = [] := rfl
  rw [List.filter_append, hkept, hdropped, List.append_nil]

theorem get?_control (h : Restores calls ps c) :
    ∀ s ∈ Setting.controls c, Fields.get? (build calls).fields s.member.1 = some s.member.2 := by
  intro s hs
  refine Fields.get?_of_mem (sorted_build calls).nodup_names ?_
  refine h.fields_perm.mem_iff.mpr (List.mem_append_right _ ?_)
  exact List.mem_map_of_mem hs

theorem config_eq (h : Restores calls ps c) : (build calls).config = { c with matcher := none } := by
  obtain ⟨hskip, hrealtime, hpolicy, hpages⟩ : _ ∧ _ ∧ _ ∧ _ := by
    simpa [Setting.controls, Setting.member] using h.get?_control
  have hmode := (RealtimeMode.ofName?_eq_some_iff _ c.realtime).mpr rfl
  have hfetch := (FetchPolicy.ofName?_eq_some_iff _ c.fetchPolicy).mpr rfl
  have hmatcher : (build calls).matcher = none := by rw [build_eq]
  simp [config, control, hskip, hrealtime, hpolicy, hpages, Json.bool?, Json.named?, hmode, hfetch,
    hmatcher]

end Restores

/-- **Splitting a bag normalises it.** The params are the fields of the bag under all names but
those of the controls, and there are none if no field is left; the configuration has the controls
that the bag spells. A bag that is built again from params and controls, by calls in any order, is
split into the same descriptor and the same configuration, up to the matcher, and has the same id.
So has any other bag that agrees with the first outside the controls, and whose controls, however
they are spelled, mean the same. -/
theorem split_normalises {o : Options} {service : String} {method : Method}
    {resourceId : Option ItemId} {d : Descriptor} {c : Config} (sorted : Fields.Sorted o.fields)
    (split : o.split service method resourceId = (d, c)) :
    ((∀ key, Fields.get? (d.params.getD []) key =
        if key ∈ controlNames then none else Fields.get? o.fields key) ∧
      (d.params = none ↔ ∀ m ∈ o.fields, m.1 ∈ controlNames) ∧ c.ReadFrom o.fields) ∧
    (∀ calls : List Setting, calls.Perm (Setting.restoring d c) →
      (build calls).split service method resourceId = (d, { c with matcher := none }) ∧
        QueryId.ofQuery d { c with matcher := none } = QueryId.ofQuery d c) ∧
    (∀ (p : Options) (e : Descriptor) (k : Config), Fields.Sorted p.fields →
      p.split service method resourceId = (e, k) →
      (∀ key ∉ controlNames, Fields.get? p.fields key = Fields.get? o.fields key) → k.Agrees c →
      QueryId.ofQuery e k = QueryId.ofQuery d c) := by
  obtain ⟨rfl, rfl⟩ : (o.split service method resourceId).1 = d ∧ o.config = c :=
    ⟨congrArg Prod.fst split, congrArg Prod.snd split⟩
  clear split
  refine ⟨⟨fun key => ?_, split_params_eq_none, config_readFrom o⟩, fun calls perm => ⟨?_, rfl⟩,
    fun p e k hp hsplit same agrees => ?_⟩
  · rw [split_fst_params, get?_params]
  · unfold Setting.restoring at perm
    rw [split_fst_params] at perm
    have hrestores : Restores calls o.params o.config :=
      ⟨sorted_params sorted, fun m hm => of_decide_eq_true (List.mem_filter.mp hm).2, perm⟩
    exact Prod.ext (split_fst_congr hrestores.params_eq) hrestores.config_eq
  · obtain ⟨rfl, rfl⟩ : (p.split service method resourceId).1 = e ∧ p.config = k :=
      ⟨congrArg Prod.fst hsplit, congrArg Prod.snd hsplit⟩
    have hparams : p.params = o.params := by
      refine (sorted_params hp).eq_of_get? (sorted_params sorted) fun key => ?_
      rw [get?_params, get?_params]
      split
      · rfl
      · next h => exact same key h
    rw [split_fst_congr hparams]
    exact QueryId.ofQuery_congr _ agrees

end Options

namespace Notes

/-- Ideas, fetched again on every event; the other controls mean nothing. -/
def ideasBag : Options where
  fields := [("fetchPolicy", .int 3), ("headers", .null),
    ("query", .object [("tag", .string "idea")]), ("realtime", .object [("refetch", .null)]),
    ("skip", .string "yes")]
  matcher := some Matcher.everything

def ideasBagAgain : Options where
  fields := [("allPages", .bool false), ("headers", .null),
    ("query", .object [("tag", .string "idea")]), ("realtime", .string "refetch")]

def ideasDescriptor : Descriptor where
  service := "notes"
  method := .find
  resourceId := none
  params := some [("headers", .null), ("query", .object [("tag", .string "idea")])]

/-- The bag is built again from the last control to the first param, and is split as before; the
other bag has the same id. -/
theorem ideas_bag_normalised :
    Fields.Sorted ideasBag.fields ∧
    ideasBag.split "notes" .find none =
      (ideasDescriptor, { realtime := .refetch, matcher := some Matcher.everything }) ∧
    (Options.build [.allPages false, .fetchPolicy .staleWhileRevalidate, .realtime .refetch,
      .skip false, .param "query" (.object [("tag", .string "idea")]),
      .param "headers" .null]).split "notes" .find none =
        (ideasDescriptor, { realtime := .refetch }) ∧
    QueryId.ofQuery ideasDescriptor { realtime := .refetch } =
      QueryId.ofQuery ideasDescriptor
        { realtime := .refetch, matcher := some Matcher.everything } := by
  have hsorted : ∀ o ∈ [ideasBag, ideasBagAgain], Fields.Sorted o.fields := by
    unfold Fields.Sorted
    decide +kernel
  have hsplit : ideasBag.split "notes" .find none =
      (ideasDescriptor, { realtime := .refetch, matcher := some Matcher.everything }) := rfl
  obtain ⟨-, hbuild, hspelled⟩ := Options.split_normalises (hsorted _ (by simp)) hsplit
  refine ⟨hsorted _ (by simp), hsplit, (hbuild _ ?_).1, ?_⟩
  · exact List.reverse_perm (Setting.restoring ideasDescriptor { realtime := .refetch })
  · refine hspelled ideasBagAgain _ _ (hsorted _ (by simp)) rfl (fun key hkey => ?_)
      ⟨rfl, rfl, rfl, rfl⟩
    simp only [Options.controlNames, List.mem_cons, not_or] at hkey
    simp [ideasBag, ideasBagAgain, Fields.get?_cons, Ne.symm hkey.1, Ne.symm hkey.2.1,
      Ne.symm hkey.2.2.1, Ne.symm hkey.2.2.2.1]

end Notes

end LiveQuery
