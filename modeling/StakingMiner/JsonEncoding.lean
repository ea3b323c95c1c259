import Mathlib.Data.List.Forall2
import Mathlib.Data.List.Nodup
import StakingMiner.JsonDecoding

/-!
The encoders that `serde` derives for plain data, and their round trips. A text may list the
fields of an object in another order than the encoder did, at any depth: what was encoded is
decoded again from every such reordering.
-/

namespace LeanJson

variable {α β γ : Type}

abbrev Encoder (α : Type) : Type := α → Json

namespace Encoder

def unsigned : Encoder Nat := fun value => .number (.posInt (.ofNat value))

def option (encode : Encoder α) : Encoder (Option α)
  | none => .null
  | some value => encode value

def list (encode : Encoder α) : Encoder (List α) := fun items => .array (items.map encode)

def pair (first : Encoder α) (second : Encoder β) : Encoder (α × β) :=
  fun value => .array [first value.1, second value.2]

def triple (first : Encoder α) (second : Encoder β) (third : Encoder γ) : Encoder (α × β × γ) :=
  fun value => .array [first value.1, second value.2.1, third value.2.2]

end Encoder

/-- The same value with the fields of its objects in another order. -/
inductive Reordered : Json → Json → Prop
  | null : Reordered .null .null
  | bool (value : Bool) : Reordered (.bool value) (.bool value)
  | number (value : Number) : Reordered (.number value) (.number value)
  | string (text : String) : Reordered (.string text) (.string text)
  | array {items others : List Json} :
      List.Forall₂ Reordered items others → Reordered (.array items) (.array others)
  | object {fields order others : List (String × Json)} :
      fields.map Prod.fst = order.map Prod.fst →
      List.Forall₂ Reordered (fields.map Prod.snd) (order.map Prod.snd) →
      order.Perm others → Reordered (.object fields) (.object others)

theorem Reordered.refl : ∀ json : Json, Reordered json json
  | .null => .null
  | .bool value => .bool value
  | .number value => .number value
  | .string text => .string text
  | .array items => .array (List.forall₂_same.mpr fun item member => Reordered.refl item)
  | .object fields => by
      refine .object rfl (List.forall₂_same.mpr fun value member => ?_) (.refl fields)
      obtain ⟨field, listed, rfl⟩ := List.mem_map.mp member
      have smaller : sizeOf field.2 < 1 + sizeOf fields := by
        have inside := List.sizeOf_lt_of_mem listed
        have part : sizeOf field.2 < sizeOf field := by
          cases field
          simp only [Prod.mk.sizeOf_spec]
          omega
        omega
      exact Reordered.refl field.2
termination_by json => sizeOf json
decreasing_by
  · have inside := List.sizeOf_lt_of_mem member
    simp only [Json.array.sizeOf_spec]
    omega
  · simpa only [Json.object.sizeOf_spec] using smaller

theorem reordered_array {items : List Json} {json : Json}
    (reordered : Reordered (.array items) json) :
    ∃ others, json = .array others ∧ List.Forall₂ Reordered items others := by
  cases reordered with
  | array related => exact ⟨_, rfl, related⟩

theorem reordered_object {fields : List (String × Json)} {json : Json}
    (reordered : Reordered (.object fields) json) :
    ∃ order others : List (String × Json), json = .object others ∧ order.Perm others ∧
      fields.map Prod.fst = order.map Prod.fst ∧
      List.Forall₂ Reordered (fields.map Prod.snd) (order.map Prod.snd) := by
  cases reordered with
  | object names values perm => exact ⟨_, _, rfl, perm, names, values⟩

/-- What is encoded from a value that fits is decoded again, however it is reordered. -/
def Restores (decode : Decoder α) (encode : Encoder α) (fits : α → Prop) : Prop :=
  ∀ value json, fits value → Reordered (encode value) json → decode json = some value

section Values

variable {first : Decoder α} {firstEncode : Encoder α} {firstFits : α → Prop}
variable {second : Decoder β} {secondEncode : Encoder β} {secondFits : β → Prop}
variable {third : Decoder γ} {thirdEncode : Encoder γ} {thirdFits : γ → Prop}

theorem restores_bool : Restores .bool .bool fun _ => True := by
  rintro value _ _ ⟨⟩
  rfl

theorem restores_string : Restores .string .string fun _ => True := by
  rintro text _ _ ⟨⟩
  rfl

theorem restores_unsigned {width : Nat} (narrow : width ≤ 64) :
    Restores (.unsigned width) .unsigned (· < 2 ^ width) := by
  rintro value _ fits ⟨⟩
  have below : value < 2 ^ 64 := Nat.lt_of_lt_of_le fits (Nat.pow_le_pow_right (by decide) narrow)
  have same : (UInt64.ofNat value).toNat = value := UInt64.toNat_ofNat_of_lt below
  rw [Decoder.unsigned, same, if_pos fits]

theorem Restores.option (restores : Restores first firstEncode firstFits)
    (present : ∀ value, firstEncode value ≠ .null) :
    Restores (.option first) (.option firstEncode)
      fun chosen => ∀ value, chosen = some value → firstFits value := by
  rintro (_ | value) json fits reordered
  · cases reordered
    rfl
  · refine option_eq_some_iff.mpr ⟨?_, restores value json (fits value rfl) reordered⟩
    rintro rfl
    generalize shape : Encoder.option firstEncode (some value) = encoded at reordered
    cases reordered
    exact present value shape

theorem Restores.list (restores : Restores first firstEncode firstFits) :
    Restores (.list first) (.list firstEncode) fun items => ∀ item ∈ items, firstFits item := by
  intro items json fits reordered
  obtain ⟨others, rfl, related⟩ := reordered_array reordered
  clear reordered
  rw [Decoder.list]
  induction items generalizing others with
  | nil =>
      cases related
      rfl
  | cons item rest ih =>
      cases related with
      | cons here later =>
          rw [List.mapM_cons, restores item _ (fits item (by simp)) here,
            ih (fun other member => fits other (by simp [member])) _ later]
          rfl

theorem Restores.pair (left : Restores first firstEncode firstFits)
    (right : Restores second secondEncode secondFits) :
    Restores (.pair first second) (.pair firstEncode secondEncode)
      fun value => firstFits value.1 ∧ secondFits value.2 := by
  intro value json fits reordered
  obtain ⟨others, rfl, related⟩ := reordered_array reordered
  obtain ⟨_, _, one, more, rfl⟩ := List.forall₂_cons_left_iff.mp related
  obtain ⟨_, _, two, ⟨⟩, rfl⟩ := List.forall₂_cons_left_iff.mp more
  rw [Decoder.pair, left _ _ fits.1 one, right _ _ fits.2 two]
  rfl

theorem Restores.triple (left : Restores first firstEncode firstFits)
    (middle : Restores second secondEncode secondFits)
    (right : Restores third thirdEncode thirdFits) :
    Restores (.triple first second third) (.triple firstEncode secondEncode thirdEncode)
      fun value => firstFits value.1 ∧ secondFits value.2.1 ∧ thirdFits value.2.2 := by
  intro value json fits reordered
  obtain ⟨others, rfl, related⟩ := reordered_array reordered
  obtain ⟨_, _, one, more, rfl⟩ := List.forall₂_cons_left_iff.mp related
  obtain ⟨_, _, two, last, rfl⟩ := List.forall₂_cons_left_iff.mp more
  obtain ⟨_, _, three, ⟨⟩, rfl⟩ := List.forall₂_cons_left_iff.mp last
  rw [Decoder.triple, left _ _ fits.1 one, middle _ _ fits.2.1 two, right _ _ fits.2.2 three]
  rfl

end Values

section Objects

variable {fields others : List (String × Json)} {name : String}

theorem lookup_perm (distinct : (fields.map Prod.fst).Nodup) (perm : fields.Perm others) :
    fields.lookup name = others.lookup name := by
  induction perm with
  | nil => rfl
  | cons field _ ih =>
      obtain ⟨key, json⟩ := field
      have later := ih (List.nodup_cons.mp distinct).2
      rw [List.lookup_cons, List.lookup_cons, later]
  | swap first second rest =>
      obtain ⟨key, json⟩ := first
      obtain ⟨otherKey, otherJson⟩ := second
      have apart : otherKey ≠ key := by
        rintro rfl
        simp at distinct
      simp only [List.lookup_cons]
      by_cases here : name = otherKey
      · subst here
        simp [beq_false_of_ne apart]
      · simp [beq_false_of_ne here]
  | trans earlier _ ih again =>
      have kept : (List.map Prod.fst _).Nodup := (earlier.map Prod.fst).nodup_iff.mp distinct
      rw [ih distinct, again kept]

theorem lookup_forall {order : List (String × Json)}
    (names : fields.map Prod.fst = order.map Prod.fst)
    (values : List.Forall₂ Reordered (fields.map Prod.snd) (order.map Prod.snd)) :
    Option.Rel Reordered (fields.lookup name) (order.lookup name) := by
  induction fields generalizing order with
  | nil =>
      rw [List.map_eq_nil_iff.mp names.symm]
      exact .none
  | cons field rest ih =>
      cases order with
      | nil => simp at names
      | cons other more =>
          obtain ⟨key, json⟩ := field
          obtain ⟨otherKey, otherJson⟩ := other
          obtain ⟨same, tail⟩ := List.cons.inj names
          obtain ⟨here, later⟩ := List.forall₂_cons.mp values
          obtain rfl : key = otherKey := same
          rw [List.lookup_cons, List.lookup_cons]
          split
          · exact .some here
          · exact ih tail later

theorem find_eq_lookup (fields : List (String × Json)) (name : String) :
    (fields.find? fun field => field.1 = name).map Prod.snd = fields.lookup name := by
  induction fields with
  | nil => rfl
  | cons field rest ih =>
      obtain ⟨key, json⟩ := field
      rw [List.lookup_cons, List.find?_cons]
      by_cases here : key = name
      · simp [here]
      · have elsewhere : (name == key) = false := beq_false_of_ne fun same => here same.symm
        simp [here, elsewhere, ih]

theorem given_reordered {json : Json} (names : List String)
    (distinct : (fields.map Prod.fst).Nodup) (reordered : Reordered (.object fields) json) :
    ∃ found, given names json = some found ∧ found.positional = false ∧
      ∀ name, Option.Rel Reordered (fields.lookup name) (found.value name) := by
  obtain ⟨order, others, rfl, perm, sameNames, values⟩ := reordered_object reordered
  rw [sameNames] at distinct
  have once : ∀ name ∈ names, others.countP (fun field => field.1 = name) ≤ 1 := by
    intro name _
    have unique := List.nodup_iff_count_le_one.mp ((perm.map Prod.fst).nodup_iff.mp distinct) name
    rw [List.count, List.countP_map] at unique
    exact Nat.le_trans (List.countP_mono_left fun field _ same => by simpa using same) unique
  refine ⟨_, by rw [given, if_pos once], rfl, fun name => ?_⟩
  dsimp only
  rw [find_eq_lookup, ← lookup_perm distinct perm]
  exact lookup_forall sameNames values

variable {found : Given} {decode : Decoder α} {encode : Encoder α} {fits : α → Prop} {value : α}

theorem Given.orDefault_restored (restores : Restores decode encode fits) (fit : fits value)
    (here : Option.Rel Reordered (some (encode value)) (found.value name)) (default : α) :
    found.orDefault name default decode = some value := by
  rw [Given.orDefault]
  generalize found.value name = given at here
  cases here with
  | some reordered => exact restores value _ fit reordered

theorem Given.orDefault_absent (absent : Option.Rel Reordered none (found.value name))
    (default : α) : found.orDefault name default decode = some default := by
  rw [Given.orDefault]
  generalize found.value name = given at absent
  cases absent
  rfl

theorem Given.optional_restored (restores : Restores decode encode fits)
    (present : ∀ value, encode value ≠ .null) (fit : fits value)
    (here : Option.Rel Reordered (some (encode value)) (found.value name)) :
    found.optional name decode = some (some value) := by
  rw [Given.optional]
  generalize found.value name = given at here
  cases here with
  | some reordered =>
      have fits : ∀ chosen, some value = some chosen → fits chosen := by
        rintro _ ⟨⟩
        exact fit
      exact restores.option present (some value) _ fits reordered

end Objects

def Produces (decode : Decoder α) (fits : α → Prop) : Prop :=
  ∀ json value, decode json = some value → fits value

section Decoded

variable {first : Decoder α} {firstFits : α → Prop} {second : Decoder β} {secondFits : β → Prop}
variable {third : Decoder γ} {thirdFits : γ → Prop}

theorem produces_anything (decode : Decoder α) : Produces decode fun _ => True :=
  fun _ _ _ => trivial

theorem produces_unsigned (width : Nat) : Produces (.unsigned width) (· < 2 ^ width) := by
  intro json value decoded
  cases json with
  | number number =>
      cases number with
      | posInt bits =>
          rw [Decoder.unsigned] at decoded
          split at decoded
          · rename_i below
            exact Option.some.inj decoded ▸ below
          · cases decoded
      | _ => cases decoded
  | _ => cases decoded

theorem Produces.option (produces : Produces first firstFits) :
    Produces (.option first) fun chosen => ∀ value, chosen = some value → firstFits value := by
  rintro json _ decoded value rfl
  exact produces json value (option_eq_some_iff.mp decoded).2

theorem Produces.list (produces : Produces first firstFits) :
    Produces (.list first) fun items => ∀ item ∈ items, firstFits item := by
  intro json items decoded
  cases json with
  | array values =>
      rw [Decoder.list] at decoded
      induction values generalizing items with
      | nil =>
          cases decoded
          simp
      | cons value rest ih =>
          simp only [List.mapM_cons, Option.bind_eq_bind, Option.bind_eq_some_iff] at decoded
          obtain ⟨item, here, others, later, ⟨⟩⟩ := decoded
          exact List.forall_mem_cons.mpr ⟨produces value item here, ih others later⟩
  | _ => cases decoded

theorem Produces.pair (left : Produces first firstFits) (right : Produces second secondFits) :
    Produces (.pair first second) fun value => firstFits value.1 ∧ secondFits value.2 := by
  intro json value decoded
  unfold Decoder.pair at decoded
  split at decoded
  · simp only [Option.bind_eq_bind, Option.bind_eq_some_iff] at decoded
    obtain ⟨one, here, two, there, ⟨⟩⟩ := decoded
    exact ⟨left _ one here, right _ two there⟩
  · cases decoded

theorem Produces.triple (left : Produces first firstFits) (middle : Produces second secondFits)
    (right : Produces third thirdFits) : Produces (.triple first second third)
      fun value => firstFits value.1 ∧ secondFits value.2.1 ∧ thirdFits value.2.2 := by
  intro json value decoded
  unfold Decoder.triple at decoded
  split at decoded
  · simp only [Option.bind_eq_bind, Option.bind_eq_some_iff] at decoded
    obtain ⟨one, here, two, there, three, last, ⟨⟩⟩ := decoded
    exact ⟨left _ one here, middle _ two there, right _ three last⟩
  · cases decoded

theorem Produces.orDefault (produces : Produces first firstFits) {found : Given} {name : String}
    {default value : α} (fit : firstFits default)
    (decoded : found.orDefault name default first = some value) : firstFits value := by
  rw [Given.orDefault] at decoded
  split at decoded
  · exact Option.some.inj decoded ▸ fit
  · exact produces _ value decoded

end Decoded

end LeanJson
