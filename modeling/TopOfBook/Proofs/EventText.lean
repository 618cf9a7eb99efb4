import TopOfBook.Event.Json
import TopOfBook.Proofs.JsonRecords

/-!
Events that are written read back. Some fields have a default and may be left out where they hold
it: those of the header, the name of a directory entry, and the match number and the printing flag
of an execution.
-/

namespace TopOfBook

namespace Json

/-! ### Simple values -/

theorem Literal.toInt?_ofInt (i : Int) : (ofInt i).toInt? = some i := by
  simp only [toInt?, ofInt, Digit.value_ofNat]
  by_cases hi : i < 0
  · have hn : i.natAbs ≠ 0 := by omega
    have habs : -(i.natAbs : Int) = i := by omega
    simp only [hi, decide_true, if_true, if_neg hn, habs]
    rfl
  · have habs : (i.natAbs : Int) = i := by omega
    simp only [hi, decide_false, Bool.false_eq_true, if_false, habs]
    rfl

theorem toUInt32?_nat (x : UInt32) : toUInt32? (.nat x.toNat) = some x := by
  have hnat : toNatBelow? UInt32.size (.nat x.toNat) = some x.toNat :=
    Literal.toNatBelow?_ofNat x.toNat_lt
  rw [toUInt32?, hnat]
  exact congrArg some UInt32.ofNat_toNat

theorem toUInt8?_nat (x : UInt8) : toUInt8? (.nat x.toNat) = some x := by
  have hnat : toNatBelow? UInt8.size (.nat x.toNat) = some x.toNat :=
    Literal.toNatBelow?_ofNat x.toNat_lt
  rw [toUInt8?, hnat]
  exact congrArg some UInt8.ofNat_toNat

theorem toInt64?_int (x : Int64) : toInt64? (.int x.toInt) = some x := by
  have hbounds : (Int64.minValue.toInt ≤ x.toInt && x.toInt ≤ Int64.maxValue.toInt) = true := by
    rw [decide_eq_true x.minValue_le_toInt, decide_eq_true x.toInt_le]
    rfl
  rw [int, toInt64?, Literal.toInt64?, Literal.toInt?_ofInt]
  simp only [hbounds, if_true, Int64.ofInt_toInt]

theorem sound_int (x : Int64) (depth : Nat) : (Json.int x.toInt).sound depth = true := by
  have hword : (Literal.ofInt x.toInt).toInt64?.isSome = true := by
    rw [show (Literal.ofInt x.toInt).toInt64? = some x from toInt64?_int x]
    rfl
  rw [int, sound, Literal.isReadable, hword]
  simp

/-- A value without parts that reads back wherever it stands. -/
structure Scalar (v : Json) : Prop where
  plain : v.Plain
  sound : ∀ depth, v.sound depth = true

theorem Scalar.nat {n : Nat} (h : n < UInt64.size) : Scalar (.nat n) := ⟨.nat n, sound_nat h⟩

theorem Scalar.int (x : Int64) : Scalar (.int x.toInt) :=
  ⟨.integer (decide (x.toInt < 0)) x.toInt.natAbs, sound_int x⟩

theorem Scalar.text (s : String) : Scalar (.text s) := ⟨.text s, fun _ => rfl⟩

theorem Scalar.bool (b : Bool) : Scalar (.bool b) := ⟨.bool b, fun _ => rfl⟩

/-- A record is one container around its fields. -/
theorem sound_record {depth : Nat} {fields : List (String × Json)}
    (h : ∀ f ∈ fields, sound depth f.2 = true) : sound (depth + 1) (record fields) = true := by
  rw [record, sound]
  induction fields with
  | nil => rfl
  | cons f fields ih =>
    rw [List.forall_mem_cons] at h
    rw [List.map_cons, soundFields, h.1, ih h.2]
    rfl

/-! ### Remaining fields -/

variable {α β : Type} {fields : List (String × Json)} {omitted : Finset String} {name : String}
  {v : Json} {read : Json → Option α} {a default : α} {rest : α → Option β} {b : β}

/-- A field that stays is read, and then the rest. -/
theorem Record.bind_required (hname : name ∉ omitted) (hv : fields.lookup name = some v)
    (hread : read v = some a) (hrest : rest a = some b) :
    ((Record.mk false (remaining omitted fields)).required name read >>= rest) = some b :=
  bind_eq_some (required_eq_some (by rw [lookup_remaining, if_neg hname, hv]) hread) hrest

/-- A field that is omitted only where it holds its default is read as it is, and then the rest. -/
theorem Record.bind_defaulted (hname : name ∈ omitted → a = default)
    (hv : fields.lookup name = some v) (hread : read v = some a) (hrest : rest a = some b) :
    ((Record.mk false (remaining omitted fields)).defaulted name read default >>= rest) =
      some b := by
  have hwritten : (Record.mk false fields).defaulted name read default = some a := by
    rw [defaulted, find?, hv]
    exact hread
  refine bind_eq_some ((defaulted_remaining omitted hwritten).trans ?_) hrest
  split_ifs with homitted
  · rw [hname homitted]
  · rfl

theorem remaining_empty (fields : List (String × Json)) : remaining ∅ fields = fields :=
  List.filter_eq_self.2 fun _ _ => by simp

end Json

/-! ### Market values -/

theorem Price.ofJson?_toJson (p : Price) : ofJson? p.toJson = some p := by
  rw [toJson, ofJson?, Json.toInt64?_int, Option.map_some]

theorem Quantity.ofJson?_toJson (q : Quantity) : ofJson? q.toJson = some q := by
  rw [toJson, ofJson?, toNat, Json.toUInt64?_nat, Option.map_some]

theorem Timestamp.ofJson?_toJson (t : Timestamp) : ofJson? t.toJson = some t := by
  rw [toJson, ofJson?, Json.toUInt64?_nat, Option.map_some]

theorem Instrument.ofJson?_toJson (i : Instrument) : ofJson? i.toJson = some i := by
  rw [toJson, ofJson?, Json.toUInt32?_nat, Option.map_some]

theorem Side.ofJson?_toJson (lenient : Bool) (s : Side) : ofJson? lenient s.toJson = some s := by
  cases s <;> rfl

/-! ### Headers -/

namespace Header

/-- The field has a default and holds it. -/
def IsDefault (h : Header) : String → Prop
  | "recv_ts" => h.received = .zero
  | "feed_ts" => h.fed = .zero
  | "sequence" => h.sequence = 0
  | "offset" => h.offset = 0
  | _ => False

theorem fieldNames_nodup : fieldNames.Nodup := by decide

theorem ofJson?_without (h : Header) {omitted : Finset String}
    (homitted : ∀ name ∈ omitted, h.IsDefault name) :
    ofJson? (h.toJson.without omitted) = some h := by
  rw [ofJson?, toJson]
  refine Json.bind_eq_some (Json.Record.read?_without fieldNames_nodup rfl omitted) ?_
  refine Json.Record.bind_defaulted (homitted _) rfl h.received.ofJson?_toJson ?_
  refine Json.Record.bind_defaulted (homitted _) rfl h.fed.ofJson?_toJson ?_
  refine Json.Record.bind_defaulted (homitted _) rfl (Json.toUInt64?_nat h.sequence) ?_
  exact Json.Record.bind_defaulted (homitted _) rfl (Json.toUInt64?_nat h.offset) rfl

/-- The header is a record of words. -/
theorem exists_fields (h : Header) :
    ∃ fields, h.toJson = .record fields ∧ ∀ f ∈ fields, f.2.Scalar := by
  refine ⟨_, rfl, ?_⟩
  simp only [List.forall_mem_cons]
  exact ⟨.nat h.received.nanos.toNat_lt, .nat h.fed.nanos.toNat_lt, .nat h.sequence.toNat_lt,
    .nat h.offset.toNat_lt, List.forall_mem_nil _⟩

theorem plain_toJson (h : Header) : h.toJson.Plain := by
  obtain ⟨fields, hfields, hscalar⟩ := h.exists_fields
  exact hfields ▸ .record fun f hf => (hscalar f hf).plain

theorem sound_toJson_without (h : Header) (omitted : Finset String) (depth : Nat) :
    (h.toJson.without omitted).sound (depth + 1) = true := by
  obtain ⟨fields, hfields, hscalar⟩ := h.exists_fields
  rw [hfields, Json.without_record]
  exact Json.sound_record fun f hf => (hscalar f (List.mem_of_mem_filter hf)).sound depth

end Header

/-! ### Events -/

theorem Kind.ofName?_name (k : Kind) : ofName? k.name = some k := by
  cases k <;> rfl

theorem Kind.fieldNames_nodup (k : Kind) : k.fieldNames.Nodup := by
  cases k <;> decide

namespace Message

/-- The field has a default and holds it. -/
def IsDefault : Message → String → Prop
  | directory _ name, "name" => name = ""
  | orderExecuted _ _ _ matchNumber, "match_number" => matchNumber = 0
  | orderExecutedWithPrice _ _ _ matchNumber _ _, "match_number" => matchNumber = 0
  | orderExecutedWithPrice _ _ _ _ _ printable, "printable" => printable = false
  | _, _ => False

theorem mem_of_isDefault {m : Message} {name : String} (h : m.IsDefault name) :
    name ∈ ["name", "match_number", "printable"] := by
  unfold IsDefault at h
  split at h
  · exact List.mem_cons_self
  · exact List.mem_cons_of_mem _ List.mem_cons_self
  · exact List.mem_cons_of_mem _ List.mem_cons_self
  · exact List.mem_cons_of_mem _ (List.mem_cons_of_mem _ List.mem_cons_self)
  · exact h.elim

end Message

variable {omitted : Finset String}

/-- The fields of an order, behind a header and before others, none of them omitted. -/
theorem Order.ofFields?_remaining (o : Order) (hnone : ∀ name, name ∉ omitted) (header : Json)
    (rest : List (String × Json)) :
    ofFields? ⟨false, Json.remaining omitted (("header", header) :: (o.jsonFields ++ rest))⟩ =
      some o := by
  refine Json.Record.bind_required (hnone _) rfl o.instrument.ofJson?_toJson ?_
  refine Json.Record.bind_required (hnone _) rfl (Json.toUInt64?_nat o.id) ?_
  refine Json.Record.bind_required (hnone _) rfl (o.side.ofJson?_toJson true) ?_
  refine Json.Record.bind_required (hnone _) rfl o.price.ofJson?_toJson ?_
  exact Json.Record.bind_required (hnone _) rfl o.quantity.ofJson?_toJson rfl

namespace Message

/-- The fields of a message are read behind its header. -/
theorem ofFields?_remaining (m : Message) (homitted : ∀ name ∈ omitted, m.IsDefault name)
    (header : Json) :
    ofFields? ⟨false, Json.remaining omitted (("header", header) :: m.jsonFields)⟩ m.kind =
      some m := by
  cases m with
  | directory instrument name =>
    refine Json.Record.bind_required (homitted _) rfl instrument.ofJson?_toJson ?_
    exact Json.Record.bind_defaulted (homitted _) rfl rfl rfl
  | addOrder order =>
    exact congrArg (Option.map addOrder) (order.ofFields?_remaining homitted header [])
  | addOrderAttributed order attribution =>
    refine Json.bind_eq_some (order.ofFields?_remaining homitted header _) ?_
    exact Json.Record.bind_required (homitted _) rfl rfl rfl
  | orderExecuted instrument id quantity matchNumber =>
    refine Json.Record.bind_required (homitted _) rfl instrument.ofJson?_toJson ?_
    refine Json.Record.bind_required (homitted _) rfl (Json.toUInt64?_nat id) ?_
    refine Json.Record.bind_required (homitted _) rfl quantity.ofJson?_toJson ?_
    exact Json.Record.bind_defaulted (homitted _) rfl (Json.toUInt64?_nat matchNumber) rfl
  | orderExecutedWithPrice instrument id quantity matchNumber price printable =>
    refine Json.Record.bind_required (homitted _) rfl instrument.ofJson?_toJson ?_
    refine Json.Record.bind_required (homitted _) rfl (Json.toUInt64?_nat id) ?_
    refine Json.Record.bind_required (homitted _) rfl quantity.ofJson?_toJson ?_
    refine Json.Record.bind_defaulted (homitted _) rfl (Json.toUInt64?_nat matchNumber) ?_
    refine Json.Record.bind_required (homitted _) rfl price.ofJson?_toJson ?_
    exact Json.Record.bind_defaulted (homitted _) rfl rfl rfl
  | orderCancel instrument id quantity =>
    refine Json.Record.bind_required (homitted _) rfl instrument.ofJson?_toJson ?_
    refine Json.Record.bind_required (homitted _) rfl (Json.toUInt64?_nat id) ?_
    exact Json.Record.bind_required (homitted _) rfl quantity.ofJson?_toJson rfl
  | orderDelete instrument id =>
    refine Json.Record.bind_required (homitted _) rfl instrument.ofJson?_toJson ?_
    exact Json.Record.bind_required (homitted _) rfl (Json.toUInt64?_nat id) rfl
  | orderReplace instrument oldId newId price quantity =>
    refine Json.Record.bind_required (homitted _) rfl instrument.ofJson?_toJson ?_
    refine Json.Record.bind_required (homitted _) rfl (Json.toUInt64?_nat oldId) ?_
    refine Json.Record.bind_required (homitted _) rfl (Json.toUInt64?_nat newId) ?_
    refine Json.Record.bind_required (homitted _) rfl price.ofJson?_toJson ?_
    exact Json.Record.bind_required (homitted _) rfl quantity.ofJson?_toJson rfl
  | unknown code =>
    exact Json.Record.bind_required (homitted _) rfl (Json.toUInt8?_nat code) rfl

theorem scalar_jsonFields (m : Message) : ∀ f ∈ m.jsonFields, f.2.Scalar := by
  have hinstrument (i : Instrument) : i.toJson.Scalar := .nat (i.id.toNat_lt.trans (by decide))
  have hquantity (q : Quantity) : q.toJson.Scalar := .nat q.shares.toNat_lt
  have horder (o : Order) : ∀ f ∈ o.jsonFields, f.2.Scalar := by
    simp only [Order.jsonFields, List.forall_mem_cons]
    exact ⟨hinstrument _, .nat o.id.toNat_lt, .text _, .int _, hquantity _, List.forall_mem_nil _⟩
  cases m with
  | directory instrument name =>
    simp only [jsonFields, List.forall_mem_cons]
    exact ⟨hinstrument _, .text _, List.forall_mem_nil _⟩
  | addOrder order => exact horder order
  | addOrderAttributed order attribution =>
    simp only [jsonFields, List.forall_mem_append, List.forall_mem_singleton]
    exact ⟨horder order, .text _⟩
  | orderExecuted instrument id quantity matchNumber =>
    simp only [jsonFields, List.forall_mem_cons]
    exact ⟨hinstrument _, .nat id.toNat_lt, hquantity _, .nat matchNumber.toNat_lt,
      List.forall_mem_nil _⟩
  | orderExecutedWithPrice instrument id quantity matchNumber price printable =>
    simp only [jsonFields, List.forall_mem_cons]
    exact ⟨hinstrument _, .nat id.toNat_lt, hquantity _, .nat matchNumber.toNat_lt, .int _,
      .bool _, List.forall_mem_nil _⟩
  | orderCancel instrument id quantity =>
    simp only [jsonFields, List.forall_mem_cons]
    exact ⟨hinstrument _, .nat id.toNat_lt, hquantity _, List.forall_mem_nil _⟩
  | orderDelete instrument id =>
    simp only [jsonFields, List.forall_mem_cons]
    exact ⟨hinstrument _, .nat id.toNat_lt, List.forall_mem_nil _⟩
  | orderReplace instrument oldId newId price quantity =>
    simp only [jsonFields, List.forall_mem_cons]
    exact ⟨hinstrument _, .nat oldId.toNat_lt, .nat newId.toNat_lt, .int _, hquantity _,
      List.forall_mem_nil _⟩
  | unknown code =>
    simp only [jsonFields, List.forall_mem_cons]
    exact ⟨.nat (code.toNat_lt.trans (by decide)), List.forall_mem_nil _⟩

theorem map_fst_jsonFields (m : Message) (header : Json) :
    (("header", header) :: m.jsonFields).map Prod.fst = m.kind.fieldNames := by
  cases m <;> rfl

end Message

/-- The fields that are left out, of the header and of the event itself. -/
structure OmittedEventFields where
  header : Finset String
  event : Finset String

namespace Event

/-- The event as it is written, without some of its fields. -/
def partialJson (e : Event) (o : OmittedEventFields) : Json :=
  (e.toJson.mapField "header" (.without o.header)).without o.event

/-- Fields are left out only where they have a default and hold it. -/
structure Omits (e : Event) (o : OmittedEventFields) : Prop where
  header : ∀ name ∈ o.header, e.header.IsDefault name
  event : ∀ name ∈ o.event, e.message.IsDefault name

variable {e : Event} {o : OmittedEventFields}

theorem plain_partialJson (e : Event) (o : OmittedEventFields) : (e.partialJson o).Plain := by
  refine (Json.Plain.mapField ?_ (fun w hw => hw.without _) _).without _
  refine .record ?_
  simp only [List.forall_mem_cons]
  exact ⟨.text _, e.header.plain_toJson, fun f hf => (e.message.scalar_jsonFields f hf).plain⟩

/-- The name of the event and its header stay. -/
theorem Omits.stays (h : e.Omits o) {name : String}
    (hname : name ∉ ["name", "match_number", "printable"]) : name ∉ o.event :=
  fun hmem => hname (Message.mem_of_isDefault (h.event name hmem))

theorem partialJson_eq (h : e.Omits o) :
    e.partialJson o = .record (("type", e.kind.toJson) ::
      Json.remaining o.event
        (("header", e.header.toJson.without o.header) :: e.message.jsonFields)) := by
  have hheader : e.toJson.mapField "header" (.without o.header) =
      .record (("type", e.kind.toJson) ::
        ("header", e.header.toJson.without o.header) :: e.message.jsonFields) := by
    obtain ⟨header, message⟩ := e
    cases message <;> rfl
  have htype : "type" ∉ o.event := h.stays (by decide)
  rw [partialJson, hheader, Json.without_record, Json.remaining,
    List.filter_cons_of_pos (by simpa using htype)]
  rfl

/-- Without anything left out the event is as it is written. -/
theorem partialJson_empty (e : Event) : e.partialJson ⟨∅, ∅⟩ = e.toJson := by
  have homits : e.Omits ⟨∅, ∅⟩ := ⟨by simp, by simp⟩
  have hheader : e.header.toJson.without ∅ = e.header.toJson := by
    rw [Header.toJson, Json.without_record, Json.remaining_empty]
  rw [partialJson_eq homits, Json.remaining_empty, hheader, toJson]

/-- An event reads back, also when some of the fields that hold their default are left out. -/
theorem ofJson?_partialJson (h : e.Omits o) : ofJson? (e.partialJson o) = some e := by
  let fields := ("header", e.header.toJson.without o.header) :: e.message.jsonFields
  have hsound : ∀ f ∈ ("type", e.kind.toJson) :: Json.remaining o.event fields,
      f.2.sound 126 = true := by
    have hfields : ∀ f ∈ fields, f.2.sound 126 = true := by
      rw [List.forall_mem_cons]
      exact ⟨e.header.sound_toJson_without _ _,
        fun f hf => (e.message.scalar_jsonFields f hf).sound _⟩
    rw [List.forall_mem_cons]
    exact ⟨rfl, fun f hf => hfields f (List.mem_of_mem_filter hf)⟩
  have hfresh : ∀ f ∈ Json.remaining o.event fields, f.1 ≠ "type" := by
    intro f hf htype
    have hname : "type" ∈ e.kind.fieldNames :=
      e.message.map_fst_jsonFields (e.header.toJson.without o.header) ▸
        htype ▸ List.mem_map_of_mem (List.mem_of_mem_filter hf)
    revert hname
    cases e.kind <;> decide
  rw [partialJson_eq h, ofJson?]
  refine Json.bind_eq_some (Json.alternative?_record (Json.sound_record hsound) hfresh) ?_
  refine Json.bind_eq_some e.kind.ofName?_name ?_
  rw [← Json.without_record]
  refine Json.bind_eq_some (Json.Record.read?_without e.kind.fieldNames_nodup
    (e.message.map_fst_jsonFields _) _) ?_
  refine Json.Record.bind_required (h.stays (by decide)) rfl (e.header.ofJson?_without h.header) ?_
  exact Json.bind_eq_some (e.message.ofFields?_remaining h.event _) rfl

end Event

end TopOfBook
