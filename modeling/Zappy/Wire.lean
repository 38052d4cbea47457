import Zappy.CJsonTexts
import Zappy.Network
import Mathlib.Data.List.Nodup

/-!
# Messages on the wire (`server.c`)

What `m_handle_client_message` makes of a text, and what the server's messages look like as JSON values.  A C string
is a `String` whose characters are its bytes.
-/

namespace Zappy

open CJson JsonText Reception WebSocket Bytes

variable {D : Type*} {lib : CDouble D} {msg : ClientMessage} {s : String}

/-! ### C strings -/

/-- The characters are bytes other than zero. -/
def IsCString (s : String) : Prop := ∀ c ∈ s.toList, 0 < c.toNat ∧ c.toNat < 256

def ofBytes (bytes : List UInt8) : String := String.ofList (bytes.map Char.ofUInt8)

private theorem IsCString.ofBytes (h : IsCString s) : ofBytes (asciiBytes s) = s := by
  have hchars : (asciiBytes s).map Char.ofUInt8 = s.toList := by
    rw [asciiBytes, List.map_map]
    refine (List.map_congr_left fun c hc => ?_).trans (List.map_id _)
    refine Char.toNat_inj.1 ?_
    have hsame : (Char.ofUInt8 (UInt8.ofNat c.toNat)).toNat = c.toNat % 256 := UInt8.toNat_ofNat'
    exact hsame.trans (Nat.mod_eq_of_lt (h c hc).2)
  rw [Zappy.ofBytes, hchars, String.ofList_toList]

theorem IsCString.zero_notMem (h : IsCString s) : 0 ∉ asciiBytes s := by
  intro hzero
  obtain ⟨c, hc, hz⟩ := List.mem_map.1 hzero
  have hnat := congrArg UInt8.toNat hz
  rw [UInt8.toNat_ofNat', Nat.mod_eq_of_lt (h c hc).2] at hnat
  exact absurd hnat (Nat.ne_of_gt (h c hc).1)

/-! ### Messages of clients -/

/-- A field that the handlers look up with `cJSON_GetObjectItem` and `cJSON_IsString`. -/
def stringField (root : Value D) (name : String) : Option String :=
  ((cJSONGetObjectItem root (asciiBytes name)).bind stringOf).map ofBytes

/-- What the handlers see of the parsed message. -/
def clientMessage (root : Value D) : ClientMessage where
  type := stringField root "type"
  cmd := stringField root "cmd"
  arg := stringField root "arg"
  key := stringField root "key"
  role := stringField root "role"
  teamName := stringField root "team-name"

/-- The beginning of `m_handle_client_message`; `none` when the text is not parsed. -/
def readMessage (lib : CDouble D) (text : List UInt8) : Option ClientMessage := (cJSONParse lib text).map clientMessage

/-- The fields of a message and their names. -/
def ClientMessage.fields (msg : ClientMessage) : List (String × Option String) :=
  [("type", msg.type), ("cmd", msg.cmd), ("arg", msg.arg), ("key", msg.key), ("role", msg.role),
    ("team-name", msg.teamName)]

/-- The members of an object that says so. -/
def ClientMessage.members (msg : ClientMessage) : List (List UInt8 × Value D) :=
  msg.fields.filterMap fun e => e.2.map fun s => (asciiBytes e.1, .string (asciiBytes s))

/-- Every field is a C string. -/
def ClientMessage.AreCStrings (msg : ClientMessage) : Prop := ∀ e ∈ msg.fields, ∀ s ∈ e.2, IsCString s

private theorem mem_members {m : List UInt8 × Value D} : m ∈ msg.members ↔
    ∃ name s, (name, some s) ∈ msg.fields ∧ (asciiBytes name, .string (asciiBytes s)) = m := by
  rw [ClientMessage.members, List.mem_filterMap]
  constructor
  · rintro ⟨⟨name, field⟩, he, hm⟩
    obtain ⟨s, rfl, rfl⟩ := Option.map_eq_some_iff.1 hm
    exact ⟨name, s, he, rfl⟩
  · rintro ⟨name, s, he, rfl⟩
    exact ⟨(name, some s), he, rfl⟩

/-- No two names are the same up to case. -/
private theorem fields_inj {e e' : String × Option String} (he : e ∈ msg.fields) (he' : e' ∈ msg.fields)
    (hname : (asciiBytes e.1).map toLower = (asciiBytes e'.1).map toLower) : e = e' := by
  have hnodup : (msg.fields.map fun e => (asciiBytes e.1).map toLower).Nodup := by
    have hnames : (["type", "cmd", "arg", "key", "role", "team-name"].map fun n =>
        (asciiBytes n).map toLower).Nodup := by decide
    exact hnames
  exact List.inj_on_of_nodup_map hnodup he he' hname

/-- A field is found in the members of a message, in whatever order they come. -/
private theorem stringField_members (hmsg : msg.AreCStrings) {ms : List (List UInt8 × Value D)}
    (hms : ms.Perm msg.members) {name : String} {field : Option String} (he : (name, field) ∈ msg.fields) :
    stringField (.object ms) name = field := by
  have hfind : ∀ m ∈ ms, (asciiBytes name).map toLower = m.1.map toLower →
      ∃ s, field = some s ∧ m.2 = .string (asciiBytes s) := by
    intro m hm hname
    obtain ⟨name', s, he', rfl⟩ := mem_members.1 (hms.mem_iff.1 hm)
    obtain ⟨-, rfl⟩ := Prod.mk.inj (fields_inj he he' hname)
    exact ⟨s, rfl, rfl⟩
  rw [stringField, cJSONGetObjectItem]
  cases hfound : ms.find? fun m => (asciiBytes name).map toLower = m.1.map toLower with
  | none =>
    cases field with
    | none => rfl
    | some s =>
      have hmem : (asciiBytes name, Value.string (asciiBytes s)) ∈ ms :=
        hms.mem_iff.2 (mem_members.2 ⟨name, s, he, rfl⟩)
      have hnot := List.find?_eq_none.1 hfound _ hmem
      simp at hnot
  | some m =>
    obtain ⟨s, rfl, hm⟩ := hfind m (List.mem_of_find?_eq_some hfound) (by simpa using List.find?_some hfound)
    have htext : ofBytes (asciiBytes s) = s := IsCString.ofBytes (hmsg _ he s rfl)
    simp [hm, stringOf, htext]

/-- The handlers see every field of a message as it is. -/
private theorem clientMessage_members (hmsg : msg.AreCStrings) {ms : List (List UInt8 × Value D)}
    (hms : ms.Perm msg.members) : clientMessage (.object ms) = msg := by
  have hfield : ∀ name field, (name, field) ∈ msg.fields → stringField (.object ms) name = field := fun _ _ he =>
    stringField_members hmsg hms he
  rw [clientMessage, hfield "type" msg.type (by simp [ClientMessage.fields]),
    hfield "cmd" msg.cmd (by simp [ClientMessage.fields]), hfield "arg" msg.arg (by simp [ClientMessage.fields]),
    hfield "key" msg.key (by simp [ClientMessage.fields]), hfield "role" msg.role (by simp [ClientMessage.fields]),
    hfield "team-name" msg.teamName (by simp [ClientMessage.fields])]

/-- The members of a message are strings without a zero. -/
private theorem members_all (hmsg : msg.AreCStrings) {ms : List (List UInt8 × Value D)} (hms : ms.Perm msg.members)
    (Q : D → Prop) : (Value.object ms).All (fun s => 0 ∉ s) Q := by
  have hnames : ∀ e ∈ msg.fields, 0 ∉ asciiBytes e.1 := by
    have hall : ∀ n ∈ ["type", "cmd", "arg", "key", "role", "team-name"], 0 ∉ asciiBytes n := by decide
    intro e he
    exact hall e.1 (by simpa [ClientMessage.fields] using List.mem_map_of_mem (f := Prod.fst) he)
  refine allMembers_iff.2 fun m hm => ?_
  obtain ⟨name, s, he, rfl⟩ := mem_members.1 (hms.mem_iff.1 hm)
  exact ⟨hnames _ he, (hmsg _ he s rfl).zero_notMem⟩

private theorem members_depth {ms : List (List UInt8 × Value D)} (hms : ms.Perm msg.members) :
    (Value.object ms).depth ≤ nestingLimit := by
  have hzero : depthMembers ms ≤ 0 := by
    refine depthMembers_le_iff.2 fun m hm => ?_
    obtain ⟨name, s, -, rfl⟩ := mem_members.1 (hms.mem_iff.1 hm)
    exact Nat.le_refl 0
  exact (Nat.succ_le_succ hzero).trans (by decide)

/-- A JSON text for the message, in whatever order and layout, is read as the message. -/
private theorem readMessage_text (hmsg : msg.AreCStrings) {ms : List (List UInt8 × Value D)} (hms : ms.Perm msg.members)
    {w t rest : List UInt8} (hw : Blank w) (h : Denotes (Reads lib) (.object ms) t) (hrest : EndsNumber rest) :
    readMessage lib (w ++ (t ++ rest)) = some msg := by
  have hall := members_all hmsg hms fun _ => True
  rw [readMessage, cJSONParse_skip (skipUtf8Bom_text hw h rest) hw h hrest, if_pos (members_depth hms),
    hall.mapStrings fun s => cString_of_notMem, Option.map_some, clientMessage_members hmsg hms]

/-- What `m_handle_client_event` hands on of a masked text frame that holds a JSON text for a message and fits the
buffer, if no record ends in its header: the message. -/
theorem message_received (lib : CDouble D) {msg : ClientMessage} (hmsg : msg.AreCStrings)
    {ms : List (List UInt8 × Value D)} (hms : ms.Perm msg.members) {w text w' : List UInt8} (hw : Blank w)
    (hw' : Blank w') (htext : Denotes (Reads lib) (.object ms) text) {f : Frame} {key : MaskKey}
    (hop : f.opcode = 1) (hmask : f.mask = some key) (hpayload : f.payload = w ++ (text ++ w'))
    (hshort : f.payload.length < bufferSize) {t : Tls} {rest buffer : List UInt8} (h : t.Proper)
    (ht : t.unread = f.bytes ++ rest) (hlength : f.form.extra ≤ (t.skip 2).available)
    (hkey : 4 ≤ (t.skip (2 + f.form.extra)).available) (hbuffer : buffer.length = bufferSize) :
    ((Reception.mHandleClientEvent buffer t).bind fun passed => readMessage lib passed.2) = some msg := by
  have hpos : 0 < f.payload.length := by
    obtain ⟨b, t', rfl, -⟩ := htext.head
    rw [hpayload, List.length_append, List.length_append, List.length_cons]
    omega
  have hzero : (0 : UInt8) ∉ f.payload := by
    rw [hpayload, List.mem_append, List.mem_append, not_or, not_or]
    exact ⟨hw.zero_notMem, htext.zero_notMem, hw'.zero_notMem⟩
  have henough : f.mask = none → 4 ≤ rest.length := fun hnone => by
    rw [hmask] at hnone
    cases hnone
  have hends : EndsNumber w' := endsNumber_blank hw'
  have hpassed := (cString_eq_iff (length_unmasked henough) rfl (hbuffer ▸ hshort)).2
    ⟨unmasked_of_mask hmask, hzero⟩
  rw [mHandleClientEvent_delivered buffer h ht hop ⟨⟨hpos, hshort.le⟩, hlength, hkey, henough⟩, Option.bind_some,
    hpassed, hpayload]
  exact readMessage_text hmsg hms hw htext hends

/-- A frame with the command `voir`. -/
def lookFrame : Frame := clientText sampleKey (asciiBytes "\x7b\"type\":\"cmd\",\"cmd\":\"voir\"\x7d") (by decide)

theorem message_received_look :
    ((Reception.mHandleClientEvent (List.replicate 4096 0) { kernel := [lookFrame.bytes] }).bind fun passed =>
      readMessage wholeDouble passed.2) = some { type := "cmd", cmd := "voir" } := by
  have hmsg : ({ type := "cmd", cmd := "voir" } : ClientMessage).AreCStrings := by
    simp [ClientMessage.AreCStrings, ClientMessage.fields, IsCString]
  have hall : (Value.object (ClientMessage.members { type := "cmd", cmd := "voir" })).All (fun _ => True)
      (Exact wholeDouble) := (members_all hmsg (.refl _) _).mono fun _ _ => trivial
  obtain ⟨text, hprint, hdenotes⟩ := printValue_denotes hall false 0
  have hpayload : lookFrame.payload = [] ++ (text ++ []) := by
    rw [List.nil_append, List.append_nil]
    exact Option.some.inj (Eq.trans (by decide +kernel) hprint)
  have hunread : ({ kernel := [lookFrame.bytes] } : Tls).unread = lookFrame.bytes ++ [] := by decide +kernel
  exact message_received wholeDouble hmsg (.refl _) .nil .nil hdenotes rfl rfl hpayload (by decide) (by decide) hunread
    (by decide +kernel) (by decide +kernel) List.length_replicate

/-! ### Messages of the server -/

/-- The item that cJSON keeps for a value of a message. -/
def JsonValue.item (lib : CDouble D) : JsonValue → Value D
  | .str s => .string (asciiBytes s)
  | .num n => .number (lib.ofInt n)
  | .numbers fields => .object (fields.map fun f => (asciiBytes f.1, .number (lib.ofInt f.2)))
  | .vision tiles => .array (tiles.map fun tile => .array (tile.map fun s => .string (asciiBytes s)))

/-- The object that is printed for a message. -/
def Json.root (lib : CDouble D) (msg : Json) : Value D :=
  .object (msg.map fun f => (asciiBytes f.1, f.2.item lib))

/-- Strings are C strings, and numbers are of the type `int`. -/
def JsonValue.Printable : JsonValue → Prop
  | .str s => IsCString s
  | .num n => IsInt n
  | .numbers fields => ∀ f ∈ fields, IsCString f.1 ∧ IsInt f.2
  | .vision tiles => ∀ tile ∈ tiles, ∀ s ∈ tile, IsCString s

def Json.Printable (msg : Json) : Prop := ∀ f ∈ msg, IsCString f.1 ∧ f.2.Printable

private theorem JsonValue.item_all (hlib : lib.WholeNumbers) {v : JsonValue} (hv : v.Printable) :
    (v.item lib).All (fun s => 0 ∉ s) (Exact lib) := by
  cases v with
  | str s => exact IsCString.zero_notMem hv
  | num n => exact hlib.exact hv
  | numbers fields =>
    refine allMembers_iff.2 fun m hm => ?_
    obtain ⟨f, hf, rfl⟩ := List.mem_map.1 hm
    exact ⟨(hv f hf).1.zero_notMem, hlib.exact (hv f hf).2⟩
  | vision tiles =>
    refine allItems_iff.2 fun item hitem => ?_
    obtain ⟨tile, htile, rfl⟩ := List.mem_map.1 hitem
    refine allItems_iff.2 fun item hitem => ?_
    obtain ⟨s, hs, rfl⟩ := List.mem_map.1 hitem
    exact (hv tile htile s hs).zero_notMem

private theorem JsonValue.item_depth (v : JsonValue) : (v.item lib).depth ≤ 2 := by
  cases v with
  | str | num => exact Nat.zero_le 2
  | numbers fields =>
    refine Nat.succ_le_succ (depthMembers_le_iff.2 fun m hm => ?_)
    obtain ⟨f, -, rfl⟩ := List.mem_map.1 hm
    exact Nat.zero_le 1
  | vision tiles =>
    refine Nat.succ_le_succ (depthItems_le_iff.2 fun item hitem => ?_)
    obtain ⟨tile, -, rfl⟩ := List.mem_map.1 hitem
    refine Nat.succ_le_succ (depthItems_le_iff.2 fun item hitem => ?_)
    obtain ⟨s, -, rfl⟩ := List.mem_map.1 hitem
    exact Nat.le_refl 0

/-- What is printed is a JSON text that stands for the value and for no other, and `cJSON_Parse` reads it. -/
def Conveys (lib : CDouble D) (v : Value D) (printed : Option (List UInt8)) : Prop :=
  ∃ text, printed = some text ∧ Denotes (Reads lib) v text ∧ (∀ v', Denotes (Reads lib) v' text → v' = v) ∧
    cJSONParse lib text = some v

private theorem readsBack_conveys {v : Value D} {printed : Option (List UInt8)} (h : ReadsBack lib v printed)
    (hdepth : v.depth ≤ nestingLimit) : Conveys lib v printed := by
  obtain ⟨text, hprint, hdenotes, hread⟩ := h
  rw [if_pos hdepth] at hread
  exact ⟨text, hprint, hdenotes, fun v' hv' => denotes_unique hv' hdenotes, hread⟩

private theorem root_depth (msg : Json) : (msg.root lib).depth ≤ nestingLimit := by
  have hmembers : depthMembers (msg.map fun f => (asciiBytes f.1, f.2.item lib)) ≤ 2 := by
    refine depthMembers_le_iff.2 fun m hm => ?_
    obtain ⟨f, -, rfl⟩ := List.mem_map.1 hm
    exact f.2.item_depth
  exact (Nat.succ_le_succ hmembers).trans (by decide)

private theorem root_all (hlib : lib.WholeNumbers) {msg : Json} (hmsg : msg.Printable) :
    (msg.root lib).All (fun s => 0 ∉ s) (Exact lib) := by
  refine allMembers_iff.2 fun m hm => ?_
  obtain ⟨f, hf, rfl⟩ := List.mem_map.1 hm
  exact ⟨(hmsg f hf).1.zero_notMem, JsonValue.item_all hlib (hmsg f hf).2⟩

/-- Every message of the server is printed, with and without layout, as a JSON text that stands for it and for nothing
else. -/
theorem message_sent (hlib : lib.WholeNumbers) {msg : Json} (hmsg : msg.Printable) :
    Conveys lib (msg.root lib) (cJSONPrint lib (msg.root lib)) ∧
      Conveys lib (msg.root lib) (cJSONPrintUnformatted lib (msg.root lib)) :=
  ⟨readsBack_conveys (printValue_readsBack (root_all hlib hmsg) true 0) (root_depth msg),
    readsBack_conveys (printValue_readsBack (root_all hlib hmsg) false 0) (root_depth msg)⟩

theorem message_sent_ok :
    Conveys wholeDouble (Json.root wholeDouble (response "voir" none (some "ok")))
      (cJSONPrint wholeDouble (Json.root wholeDouble (response "voir" none (some "ok")))) := by
  refine (message_sent wholeDouble_wholeNumbers ?_).1
  simp [Json.Printable, JsonValue.Printable, response, IsCString]

end Zappy
