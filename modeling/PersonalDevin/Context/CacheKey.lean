import PersonalDevin.Context.Service
import PersonalDevin.JsonText

/-!
# What the text of a payload determines

The cache key of a payload is the digest of its JSON text. Of two payloads with one text that are both
valid, the models agree in all declared fields, and `config` and every `connection` hold data that is
written alike. A tuple is written like a list, so these free dictionaries may still differ.
-/

namespace PersonalDevin.Context

open Lib

/-! ### Contexts as values -/

/-- The context with the keys of its free dictionaries sorted. Models are equal if these are. -/
def EnvironmentContext.sorted (context : EnvironmentContext) : EnvironmentContext :=
  { context with
    compute := { context.compute with config := Value.sortKeysEntries context.compute.config }
    data := context.data.map fun source =>
      { source with connection := Value.sortKeysEntries source.connection }
    nonempty := by simpa using context.nonempty }

/-- `context == other`. The order of the keys of a dictionary does not matter. -/
def EnvironmentContext.Same (context other : EnvironmentContext) : Prop :=
  context.sorted = other.sorted

theorem EnvironmentContext.Same.refl (context : EnvironmentContext) : context.Same context := rfl

def DataSourceContext.plain (source : DataSourceContext) : DataSourceContext :=
  { source with connection := [] }

/-- The context without what stands in the free dictionaries. -/
def EnvironmentContext.plain (context : EnvironmentContext) : EnvironmentContext :=
  { context with
    compute := { context.compute with config := [] }
    data := context.data.map DataSourceContext.plain
    nonempty := by simpa using context.nonempty }

/-- The free dictionaries of a context, each with sorted keys. -/
def EnvironmentContext.freeForms (context : EnvironmentContext) : List Value :=
  .dict (Value.sortKeysEntries context.compute.config)
    :: context.data.map fun source => .dict (Value.sortKeysEntries source.connection)

theorem EnvironmentContext.same_iff (context other : EnvironmentContext) :
    context.Same other ↔ context.plain = other.plain ∧ context.freeForms = other.freeForms := by
  obtain ⟨cloud, compute, network, identity, data, constraints, hdata⟩ := context
  obtain ⟨cloud', compute', network', identity', data', constraints', hdata'⟩ := other
  have hsources : (data.map fun source =>
        { source with connection := Value.sortKeysEntries source.connection })
      = (data'.map fun source =>
        { source with connection := Value.sortKeysEntries source.connection })
      ↔ data.map DataSourceContext.plain = data'.map DataSourceContext.plain
        ∧ (data.map fun source => Value.dict (Value.sortKeysEntries source.connection))
          = data'.map fun source => Value.dict (Value.sortKeysEntries source.connection) := by
    clear hdata hdata'
    induction data generalizing data' with
    | nil => cases data' <;> simp
    | cons source rest ih =>
        cases data' with
        | nil => simp
        | cons source' rest' =>
            simp only [List.map_cons, List.cons.injEq, ih, DataSourceContext.plain,
              DataSourceContext.mk.injEq, Value.dict.injEq]
            tauto
  simp only [EnvironmentContext.Same, EnvironmentContext.sorted, EnvironmentContext.plain,
    EnvironmentContext.freeForms, EnvironmentContext.mk.injEq, ComputeContext.mk.injEq,
    List.cons.injEq, Value.dict.injEq, hsources]
  tauto

/-! ### Fields that the text determines -/

def Writes (v : Option Value) (data : Json) : Prop := v.bind Value.written = some data

/-- What is read of two values with the same text is the same. -/
def Determined {α : Type} (read : Option Value → Option α) : Prop :=
  ∀ (v w : Option Value) (data : Json) (a b : α), Writes v data → Writes w data →
    read v = some a → read w = some b → a = b

/-- A field that only takes a text is determined. -/
theorem determined_of_str {α : Type} {read : Option Value → Option α}
    (hread : ∀ v a, read v = some a → ∃ s, v = some (.str s)) : Determined read := by
  intro v w data a b hv hw ha hb
  obtain ⟨s, rfl⟩ := hread v a ha
  obtain ⟨t, rfl⟩ := hread w b hb
  have hdata : some data = some (.str t) := hw.symm.trans (Value.written_str t)
  obtain rfl := Option.some.inj hdata
  obtain rfl := Value.str.inj (Value.written_eq_str_iff.1 hv)
  exact Option.some.inj (ha.symm.trans hb)

theorem determined_nonEmptyText : Determined nonEmptyText := by
  refine determined_of_str fun v a h => ?_
  unfold nonEmptyText at h
  split at h
  · exact ⟨_, rfl⟩
  · cases h

theorem determined_literal {α : Type} (all : List α) (text : α → String) :
    Determined (literal all text) := by
  refine determined_of_str fun v a h => ?_
  unfold literal at h
  split at h
  · exact ⟨_, rfl⟩
  · cases h

theorem determined_orchestrator : Determined Orchestrator.field := determined_literal _ Orchestrator.text

theorem determined_topology : Determined Topology.field := determined_literal _ Topology.text

theorem determined_identityType : Determined IdentityType.field := determined_literal _ IdentityType.text

theorem determined_dataSourceType : Determined DataSourceType.field :=
  determined_literal _ DataSourceType.text

theorem determined_budget : Determined Budget.field := determined_literal _ Budget.text

/-- What the field `scim` is, read from the data. -/
def truthOf : Json → Option Bool
  | .bool b => some b
  | .str s => boolItem (.str s)
  | .number text =>
      if text.val = "0".toList ∨ text.val = "0.0".toList then some false
      else if text.val = "1".toList ∨ text.val = "1.0".toList then some true
      else none
  | _ => none

theorem truthOf_of_boolItem {v : Value} {data : Json} {b : Bool} (hv : v.written = some data)
    (hb : boolItem v = some b) : truthOf data = some b := by
  cases v with
  | bool b' =>
      obtain rfl := Option.some.inj hv
      exact hb
  | str s =>
      obtain rfl := Option.some.inj hv
      exact hb
  | int n =>
      obtain rfl := Option.some.inj hv
      rw [boolItem] at hb
      split at hb
      · rename_i hzero
        obtain rfl := hzero
        exact hb
      · split at hb
        · rename_i hone
          obtain rfl := hone
          exact hb
        · cases hb
  | float mantissa exponent =>
      obtain rfl := Option.some.inj hv
      rw [boolItem] at hb
      split at hb
      · rename_i hzero
        obtain rfl := hzero
        have htext : Value.floatText 0 exponent = "0.0" := by
          unfold Value.floatText
          exact if_pos rfl
        refine (if_pos (.inr ?_)).trans hb
        exact congrArg String.toList htext
      · split at hb
        · rename_i hone
          obtain ⟨rfl, rfl⟩ := hone
          exact hb
        · cases hb
  | _ => cases hb

theorem determined_scim : Determined fun v => v.bind boolItem := by
  intro v w data a b hv hw ha hb
  obtain ⟨value, rfl, ha⟩ := Option.bind_eq_some_iff.1 ha
  obtain ⟨value', rfl, hb⟩ := Option.bind_eq_some_iff.1 hb
  exact Option.some.inj ((truthOf_of_boolItem hv ha).symm.trans (truthOf_of_boolItem hw hb))

theorem Determined.field {α : Type} {read : Option Value → Option α} (h : Determined read)
    (hnone : read none = none) {fields fields' : Fields} {data : Json}
    (hf : Writes (some (.dict fields)) data) (hf' : Writes (some (.dict fields')) data) {key : String}
    {a b : α} (ha : read (fields.get? key) = some a) (hb : read (fields'.get? key) = some b) :
    a = b := by
  obtain ⟨entries, rfl, hentries⟩ := Value.written_dict hf
  obtain ⟨entries', heq, hentries'⟩ := Value.written_dict hf'
  obtain rfl := Json.object.inj heq
  cases hget : fields.get? key with
  | none =>
      rw [hget, hnone] at ha
      cases ha
  | some value =>
      cases hget' : fields'.get? key with
      | none =>
          rw [hget', hnone] at hb
          cases hb
      | some value' =>
          obtain ⟨item, hitem, hlookup⟩ := hentries key value hget
          obtain ⟨item', hitem', hlookup'⟩ := hentries' key value' hget'
          obtain rfl := Option.some.inj (hlookup.symm.trans hlookup')
          rw [hget] at ha
          rw [hget'] at hb
          exact h (some value) (some value') item a b hitem hitem' ha hb

/-- Items that are written alike, one by one. -/
theorem Determined.items {α : Type} {read : Option Value → Option α} (h : Determined read)
    {items items' : List Value} {data : List Json} {as bs : List α}
    (hi : items.mapM Value.written = some data) (hi' : items'.mapM Value.written = some data)
    (ha : items.mapM (fun item => read (some item)) = some as)
    (hb : items'.mapM (fun item => read (some item)) = some bs) : as = bs := by
  rw [mapM_eq_some_iff] at hi hi' ha hb
  induction hi generalizing items' as bs with
  | nil =>
      cases hi'
      cases ha
      cases hb
      rfl
  | @cons item entry _ _ hitem _ ih =>
      cases hi' with
      | @cons item' _ _ _ hitem' hrest' =>
          cases ha with
          | cons ha ha' =>
              cases hb with
              | cons hb hb' =>
                  rw [h (some item) (some item') entry _ _ hitem hitem' ha hb, ih hrest' ha' hb']

/-! ### Sections -/

theorem modelFields_eq_some {declared : List String} {v : Option Value} {fields : Fields}
    (h : modelFields declared v = some fields) : v = some (.dict fields) := by
  unfold modelFields at h
  split at h
  · split at h
    · exact congrArg (fun f => some (Value.dict f)) (Option.some.inj h)
    · cases h
  · cases h

theorem determined_cloud : Determined CloudContext.modelValidate := by
  intro v w data a b hv hw ha hb
  simp only [CloudContext.modelValidate, Option.bind_eq_bind, Option.bind_eq_some_iff,
    Option.pure_def, Option.some.injEq] at ha hb
  obtain ⟨fields, hfields, provider, hprovider, region, hregion, rfl⟩ := ha
  obtain ⟨fields', hfields', provider', hprovider', region', hregion', rfl⟩ := hb
  obtain rfl := modelFields_eq_some hfields
  obtain rfl := modelFields_eq_some hfields'
  rw [determined_nonEmptyText.field rfl hv hw hprovider hprovider',
    determined_nonEmptyText.field rfl hv hw hregion hregion']

theorem determined_compute : Determined fun v =>
    (ComputeContext.modelValidate v).map fun compute => { compute with config := [] } := by
  intro v w data a b hv hw ha hb
  simp only [ComputeContext.modelValidate, Option.bind_eq_bind, Option.bind_eq_some_iff,
    Option.pure_def, Option.map_eq_some_iff, Option.some.injEq] at ha hb
  obtain ⟨_, ⟨fields, hfields, orchestrator, horchestrator, config, _, rfl⟩, rfl⟩ := ha
  obtain ⟨_, ⟨fields', hfields', orchestrator', horchestrator', config', _, rfl⟩, rfl⟩ := hb
  obtain rfl := modelFields_eq_some hfields
  obtain rfl := modelFields_eq_some hfields'
  obtain rfl := determined_orchestrator.field rfl hv hw horchestrator horchestrator'
  rfl

theorem determined_network : Determined NetworkContext.modelValidate := by
  intro v w data a b hv hw ha hb
  simp only [NetworkContext.modelValidate, Option.bind_eq_bind, Option.bind_eq_some_iff,
    Option.pure_def, Option.some.injEq] at ha hb
  obtain ⟨fields, hfields, ingress, hingress, topology, htopology, rfl⟩ := ha
  obtain ⟨fields', hfields', ingress', hingress', topology', htopology', rfl⟩ := hb
  obtain rfl := modelFields_eq_some hfields
  obtain rfl := modelFields_eq_some hfields'
  rw [determined_nonEmptyText.field rfl hv hw hingress hingress',
    determined_topology.field rfl hv hw htopology htopology']

theorem determined_identity : Determined IdentityContext.modelValidate := by
  intro v w data a b hv hw ha hb
  simp only [IdentityContext.modelValidate, Option.bind_eq_bind] at ha hb
  obtain ⟨fields, hfields, ha⟩ := Option.bind_eq_some_iff.1 ha
  obtain ⟨type, htype, ha⟩ := Option.bind_eq_some_iff.1 ha
  obtain ⟨scim, hscim, ha⟩ := Option.bind_eq_some_iff.1 ha
  obtain ⟨fields', hfields', hb⟩ := Option.bind_eq_some_iff.1 hb
  obtain ⟨type', htype', hb⟩ := Option.bind_eq_some_iff.1 hb
  obtain ⟨scim', hscim', hb⟩ := Option.bind_eq_some_iff.1 hb
  obtain rfl := Option.some.inj ha
  obtain rfl := Option.some.inj hb
  obtain rfl := modelFields_eq_some hfields
  obtain rfl := modelFields_eq_some hfields'
  rw [determined_identityType.field rfl hv hw htype htype',
    determined_scim.field rfl hv hw hscim hscim']

theorem determined_dataSource : Determined fun v =>
    (DataSourceContext.modelValidate v).map DataSourceContext.plain := by
  intro v w data a b hv hw ha hb
  simp only [DataSourceContext.modelValidate, Option.bind_eq_bind, Option.bind_eq_some_iff,
    Option.pure_def, Option.map_eq_some_iff, Option.some.injEq] at ha hb
  obtain ⟨_, ⟨fields, hfields, type, htype, engine, hengine, connection, _, rfl⟩, rfl⟩ := ha
  obtain ⟨_, ⟨fields', hfields', type', htype', engine', hengine', connection', _, rfl⟩, rfl⟩ := hb
  obtain rfl := modelFields_eq_some hfields
  obtain rfl := modelFields_eq_some hfields'
  rw [DataSourceContext.plain, DataSourceContext.plain,
    determined_dataSourceType.field rfl hv hw htype htype',
    determined_nonEmptyText.field rfl hv hw hengine hengine']

/-- What a field that takes a list or a tuple reads, item by item. -/
theorem determined_sequence {α : Type} {read : Option Value → Option α} (h : Determined read)
    {readAll : Option Value → Option (List α)}
    (hread : ∀ v as, readAll v = some as → ∃ value items, v = some value
      ∧ (value = .list items ∨ value = .tuple items)
      ∧ items.mapM (fun item => read (some item)) = some as) : Determined readAll := by
  intro v w data as bs hv hw ha hb
  obtain ⟨value, items, rfl, hvalue, ha⟩ := hread v as ha
  obtain ⟨value', items', rfl, hvalue', hb⟩ := hread w bs hb
  obtain ⟨entries, rfl, hitems⟩ := Value.written_sequence hvalue hv
  obtain ⟨entries', heq, hitems'⟩ := Value.written_sequence hvalue' hw
  obtain rfl := Json.array.inj heq
  exact h.items hitems hitems' ha hb

theorem determined_dataSources : Determined fun v =>
    (dataSources v).map fun sources => sources.map DataSourceContext.plain := by
  refine determined_sequence determined_dataSource fun v as has => ?_
  obtain ⟨sources, hsources, rfl⟩ := Option.map_eq_some_iff.1 has
  have hplain : ∀ items : List Value,
      items.mapM (fun item => DataSourceContext.modelValidate (some item)) = some sources →
      items.mapM (fun item => (DataSourceContext.modelValidate (some item)).map
        DataSourceContext.plain) = some (sources.map DataSourceContext.plain) := by
    intro items hitems
    rw [mapM_eq_some_iff] at hitems ⊢
    exact List.forall₂_map_right_iff.2 (hitems.imp fun item source h => by rw [h, Option.map_some])
  unfold dataSources at hsources
  split at hsources
  · exact ⟨_, _, rfl, .inl rfl, hplain _ hsources⟩
  · exact ⟨_, _, rfl, .inr rfl, hplain _ hsources⟩
  · cases hsources

theorem determined_strList : Determined strList := by
  have hitem : Determined fun v => v.bind strItem := by
    refine determined_of_str fun v a h => ?_
    obtain ⟨value, rfl, h⟩ := Option.bind_eq_some_iff.1 h
    cases value with
    | str s => exact ⟨s, rfl⟩
    | _ => cases h
  refine determined_sequence hitem fun v as has => ?_
  unfold strList at has
  split at has
  · exact ⟨_, _, rfl, .inl rfl, has⟩
  · exact ⟨_, _, rfl, .inr rfl, has⟩
  · cases has

theorem determined_constraints : Determined ConstraintContext.modelValidate := by
  intro v w data a b hv hw ha hb
  simp only [ConstraintContext.modelValidate, Option.bind_eq_bind] at ha hb
  obtain ⟨fields, hfields, ha⟩ := Option.bind_eq_some_iff.1 ha
  obtain ⟨budget, hbudget, ha⟩ := Option.bind_eq_some_iff.1 ha
  obtain ⟨entries, hentries, ha⟩ := Option.bind_eq_some_iff.1 ha
  obtain ⟨compliance, hcompliance, hmade⟩ := Option.bind_eq_some_iff.1 ha
  obtain ⟨fields', hfields', hb⟩ := Option.bind_eq_some_iff.1 hb
  obtain ⟨budget', hbudget', hb⟩ := Option.bind_eq_some_iff.1 hb
  obtain ⟨entries', hentries', hb⟩ := Option.bind_eq_some_iff.1 hb
  obtain ⟨compliance', hcompliance', hmade'⟩ := Option.bind_eq_some_iff.1 hb
  obtain rfl := modelFields_eq_some hfields
  obtain rfl := modelFields_eq_some hfields'
  obtain rfl := determined_budget.field rfl hv hw hbudget hbudget'
  obtain rfl := determined_strList.field rfl hv hw hentries hentries'
  obtain rfl := Option.some.inj (hcompliance.symm.trans hcompliance')
  exact Option.some.inj (hmade.symm.trans hmade')

/-! ### Payloads -/

/-- What a validated payload says. -/
structure Valid (payload : Fields) (context : EnvironmentContext) : Prop where
  cloud : CloudContext.modelValidate (payload.get? "cloud") = some context.cloud
  compute : ComputeContext.modelValidate (payload.get? "compute") = some context.compute
  network : NetworkContext.modelValidate (payload.get? "network") = some context.network
  identity : IdentityContext.modelValidate (payload.get? "identity") = some context.identity
  data : dataSources (payload.get? "data") = some context.data
  constraints : ConstraintContext.modelValidate (payload.get? "constraints") = some context.constraints

theorem valid_of_modelValidate {payload : Fields} {context : EnvironmentContext}
    (h : EnvironmentContext.modelValidate payload = some context) : Valid payload context := by
  simp only [EnvironmentContext.modelValidate, Option.bind_eq_bind] at h
  obtain ⟨fields, hfields, h⟩ := Option.bind_eq_some_iff.1 h
  obtain rfl := Value.dict.inj (Option.some.inj (modelFields_eq_some hfields))
  obtain ⟨cloud, hcloud, h⟩ := Option.bind_eq_some_iff.1 h
  obtain ⟨compute, hcompute, h⟩ := Option.bind_eq_some_iff.1 h
  obtain ⟨network, hnetwork, h⟩ := Option.bind_eq_some_iff.1 h
  obtain ⟨identity, hidentity, h⟩ := Option.bind_eq_some_iff.1 h
  obtain ⟨data, hdata, h⟩ := Option.bind_eq_some_iff.1 h
  obtain ⟨constraints, hconstraints, h⟩ := Option.bind_eq_some_iff.1 h
  split at h
  · obtain rfl := Option.some.inj h
    exact ⟨hcloud, hcompute, hnetwork, hidentity, hdata, hconstraints⟩
  · cases h

/-- **Valid payloads with one text declare the same environment**, up to the free dictionaries. -/
theorem plain_eq_of_written {payload other : Fields} {context context' : EnvironmentContext}
    {data : Json} (hv : (Value.dict payload).written = some data)
    (hw : (Value.dict other).written = some data)
    (ha : EnvironmentContext.modelValidate payload = some context)
    (hb : EnvironmentContext.modelValidate other = some context') : context.plain = context'.plain := by
  have ha := valid_of_modelValidate ha
  have hb := valid_of_modelValidate hb
  have hcloud := determined_cloud.field rfl hv hw ha.cloud hb.cloud
  have hcompute := determined_compute.field rfl hv hw (congrArg _ ha.compute) (congrArg _ hb.compute)
  have hnetwork := determined_network.field rfl hv hw ha.network hb.network
  have hidentity := determined_identity.field rfl hv hw ha.identity hb.identity
  have hdata := determined_dataSources.field rfl hv hw (congrArg _ ha.data) (congrArg _ hb.data)
  have hconstraints := determined_constraints.field rfl hv hw ha.constraints hb.constraints
  simp only [EnvironmentContext.plain, EnvironmentContext.mk.injEq]
  exact ⟨hcloud, hcompute, hnetwork, hidentity, hdata, hconstraints⟩

/-- `section[key]`. -/
def entryOf (key : String) : Option Value → Option Value
  | some (.dict fields) => Fields.get? fields key
  | _ => none

def itemsOf : Option Value → List Value
  | some (.list items) => items
  | some (.tuple items) => items
  | _ => []

/-- `payload["compute"]["config"]` and each `item["connection"]` of `payload["data"]`, with sorted keys. -/
def freeForms (payload : Fields) : List (Option Value) :=
  (entryOf "config" (payload.get? "compute")
    :: (itemsOf (payload.get? "data")).map fun item => entryOf "connection" (some item)).map
      (Option.map Value.sortKeys)

theorem requiredDict_eq_some {v : Option Value} {fields : Fields} (h : requiredDict v = some fields) :
    v = some (.dict fields) := by
  unfold requiredDict at h
  split at h
  · exact congrArg (fun f => some (Value.dict f)) (Option.some.inj h)
  · cases h

theorem entryOf_config {v : Option Value} {compute : ComputeContext}
    (h : ComputeContext.modelValidate v = some compute) :
    entryOf "config" v = some (.dict compute.config) := by
  simp only [ComputeContext.modelValidate, Option.bind_eq_bind, Option.bind_eq_some_iff,
    Option.pure_def, Option.some.injEq] at h
  obtain ⟨fields, hfields, _, _, config, hconfig, rfl⟩ := h
  obtain rfl := modelFields_eq_some hfields
  exact requiredDict_eq_some hconfig

theorem entryOf_connection {v : Option Value} {source : DataSourceContext}
    (h : DataSourceContext.modelValidate v = some source) :
    entryOf "connection" v = some (.dict source.connection) := by
  simp only [DataSourceContext.modelValidate, Option.bind_eq_bind, Option.bind_eq_some_iff,
    Option.pure_def, Option.some.injEq] at h
  obtain ⟨fields, hfields, _, _, _, _, connection, hconnection, rfl⟩ := h
  obtain rfl := modelFields_eq_some hfields
  exact requiredDict_eq_some hconnection

/-- The free dictionaries of a context are those of its payload. -/
theorem freeForms_eq {payload : Fields} {context : EnvironmentContext}
    (h : EnvironmentContext.modelValidate payload = some context) :
    freeForms payload = context.freeForms.map some := by
  have hvalid := valid_of_modelValidate h
  have hitems : (itemsOf (payload.get? "data")).mapM
      (fun item => DataSourceContext.modelValidate (some item)) = some context.data := by
    have hdata := hvalid.data
    unfold dataSources at hdata
    split at hdata
    · rename_i items hitems
      rw [hitems]
      exact hdata
    · rename_i items hitems
      rw [hitems]
      exact hdata
    · cases hdata
  have hconnections : (itemsOf (payload.get? "data")).map (fun item => entryOf "connection" (some item))
      = context.data.map fun source => some (.dict source.connection) := by
    rw [mapM_eq_some_iff] at hitems
    exact map_eq_of_paired hitems fun _ _ h => entryOf_connection h
  rw [freeForms, hconnections, entryOf_config hvalid.compute, EnvironmentContext.freeForms,
    List.map_cons, List.map_cons, List.map_map, List.map_map]
  rfl

/-- Of two valid payloads with one text the models are equal if and only if the free dictionaries are. -/
theorem same_iff_of_written {payload other : Fields} {context context' : EnvironmentContext}
    {data : Json} (hv : (Value.dict payload).written = some data)
    (hw : (Value.dict other).written = some data)
    (ha : EnvironmentContext.modelValidate payload = some context)
    (hb : EnvironmentContext.modelValidate other = some context') :
    context.Same context' ↔ freeForms payload = freeForms other := by
  have hinj : Function.Injective (List.map (some : Value → Option Value)) :=
    List.map_injective_iff.2 (Option.some_injective Value)
  rw [EnvironmentContext.same_iff, freeForms_eq ha, freeForms_eq hb, hinj.eq_iff]
  exact and_iff_right (plain_eq_of_written hv hw ha hb)

end PersonalDevin.Context
