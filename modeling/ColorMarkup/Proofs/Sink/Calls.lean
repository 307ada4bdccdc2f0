import ColorMarkup.Proofs.Sink
/-!
# Calls on a sink

A sink is made with a capacity, and then objects are offered to it and sources are checked, in
any order and whether or not they fit. An object that there is room for takes its length from
the room, before it is known whether it has memory; then the bytes of its memory are written.
One byte of room is always left. The length counts items. So what is held and the room left make
up the capacity as long as all that is offered has as many bytes as items.

Results:
* `Has.call`: what one call leaves.
* `Has.after`: what is held and what is left along every run.
* `calls_balance`: the same from the capacity on, and which calls are refused at any point.
-/
namespace ColorMarkup.Sink

/-- A call: an object is offered, or a source is checked. -/
inductive Call where
  | append (data : Object)
  | check (source : Object)
  deriving Repr

def call (b : Sink) : Call → Sink × Except Error Unit
  | .append o => b.offer o
  | .check o => (b, b.ensureFitsObject o)

/-- The sink after calls. -/
def after (b : Sink) (cs : List Call) : Sink := cs.foldl (fun b c => (b.call c).1) b

/-- The data of an append that goes well. -/
def written (b : Sink) (c : Call) : Bytes :=
  match c, (b.call c).2 with
  | .append o, .ok () => o.memory?.getD []
  | _, _ => []

/-- The data of all appends that go well, one behind the other. -/
def writtenBy (b : Sink) : List Call → Bytes
  | [] => []
  | c :: cs => b.written c ++ (b.call c).1.writtenBy cs

/-- The room that a call takes: the length of an object that is offered and fits. -/
def taken (b : Sink) : Call → Nat
  | .check _ => 0
  | .append o => match b.room, o.length with
    | some room, .ok n => if room.atMost n then 0 else n
    | _, _ => 0

def takenBy (b : Sink) : List Call → Nat
  | [] => 0
  | c :: cs => b.taken c + (b.call c).1.takenBy cs

/-- The object has memory, with as many bytes as its length says. -/
def IsBytes (o : Object) : Prop := ∃ data, o.memory? = some data ∧ o.length = .ok data.length

/-- No append of the calls offers anything but bytes. -/
def OnlyBytes (cs : List Call) : Prop := ∀ o, .append o ∈ cs → IsBytes o

/-- There is no limit, or the object has a length, which stays below the room left. -/
def HasRoom (b : Sink) (o : Object) : Prop := ∀ room ∈ b.room, ∃ n, o.length = .ok n ∧ room.atMost n = false

/-! ## One call -/

theorem one_le_of_within {limit : Option Int} {n : Nat} (h : Within limit n) :
    ∀ r ∈ limit.map (· - (n : Int)), 1 ≤ r := by
  intro r hr
  obtain ⟨c, hc, rfl⟩ := Option.map_eq_some_iff.1 hr
  have := h c hc
  omega

section

variable {b : Sink} {o : Object}

theorem call_of_refused {e : Error} (h : (b.lengthOf o).bind b.take = .error e) :
    b.call (.append o) = (b, .error e) := by
  simp only [call, offer, h]

theorem call_of_taken {t : Sink} (h : (b.lengthOf o).bind b.take = .ok t) :
    b.call (.append o) = t.pushObject o := by
  simp only [call, offer, h]

theorem taken_of_room {room : Amount} (hroom : b.room = some room) {n : Nat} (hn : o.length = .ok n) :
    b.taken (.append o) = if room.atMost n then 0 else n := by
  simp only [taken, hroom, hn]

/-- An object that does not fit is refused and changes nothing. One that fits takes its room, and
its memory is written if it has any. -/
theorem call_cases (b : Sink) (o : Object) :
    (¬ b.HasRoom o ∧ b.taken (.append o) = 0 ∧ ∃ e, b.call (.append o) = (b, .error e)) ∨
    (b.HasRoom o ∧ ∃ t, b.take (b.taken (.append o)) = .ok t ∧ b.call (.append o) = t.pushObject o) := by
  cases hroom : b.room with
  | none =>
    -- with no limit the length is not asked for
    have htaken : b.taken (.append o) = 0 := by simp only [taken, hroom]
    have htake : ∀ n, b.take n = .ok b := fun n => by simp only [take, hroom]
    refine .inr ⟨fun room h => (by rw [hroom] at h; cases h), b, htake _, call_of_taken ?_⟩
    simp only [lengthOf, hroom, Except.bind, htake]
  | some room =>
    cases hn : o.length with
    | error e =>
      refine .inl ⟨fun h => ?_, by simp only [taken, hroom, hn], e, call_of_refused ?_⟩
      · obtain ⟨n, hlength, -⟩ := h room hroom
        rw [hn] at hlength
        cases hlength
      · simp only [lengthOf, hroom, hn, Except.bind]
    | ok n =>
      have hlength : (b.lengthOf o).bind b.take = b.take n := by
        simp only [lengthOf, hroom, hn, Except.bind]
      rw [taken_of_room hroom hn]
      cases hfits : room.atMost n with
      | true =>
        refine .inl ⟨fun h => ?_, if_pos rfl, _, call_of_refused (e := .capacity (.append n room)) ?_⟩
        · obtain ⟨m, hm, hless⟩ := h room hroom
          cases hn.symm.trans hm
          rw [hfits] at hless
          cases hless
        · simp only [hlength, take, hroom, hfits, if_true]
      | false =>
        obtain ⟨t, ht⟩ := (take_isOk_iff b n).2 (by simpa [Fits, hroom] using hfits)
        refine .inr ⟨fun r hr => ⟨n, hn, ?_⟩, t, ht, call_of_taken (hlength.trans ht)⟩
        rw [hroom] at hr
        cases hr
        exact hfits

/-- What an append writes: nothing, if it is refused. -/
theorem written_of_refused {c : Call} {e : Error} (h : (b.call c).2 = .error e) :
    b.written c = [] := by
  unfold written
  split
  · next hok =>
    rw [h] at hok
    cases hok
  · rfl

end

section

variable {b : Sink} {content : Bytes} {limit : Option Int}

/-- Room that is taken was there, and is no longer. -/
theorem Has.take (h : b.Has content limit) {t : Sink} {n : Nat} (ht : b.take n = .ok t) :
    Within limit n ∧ t.Has content (limit.map (· - (n : Int))) := by
  refine ⟨(h.fits_iff n).1 ((take_isOk_iff b n).1 ⟨t, ht⟩), ?_⟩
  obtain ⟨rfl, room, hroom, rfl⟩ := h
  rw [take_eq ht, hroom]
  exact ⟨rfl, room.map fun w => .number (w.toInt - n), by cases room <;> rfl, by cases room <;> rfl⟩

theorem Has.push (h : b.Has content limit) (data : Bytes) :
    (b.push data).Has (content ++ data) limit := by
  obtain ⟨rfl, hroom⟩ := h
  exact ⟨toBytes_push b data, hroom⟩

theorem Has.hasRoom_iff (h : b.Has content limit) (o : Object) :
    b.HasRoom o ↔ ∀ c ∈ limit, ∃ n : Nat, o.length = .ok n ∧ (n : Int) < c := by
  obtain ⟨-, room, hroom, rfl⟩ := h
  cases room with
  | none => simp [HasRoom, hroom]
  | some w => simp [HasRoom, hroom, Amount.atMost]

/-- A call adds what it writes to the content and takes its room from the limit, of which
something is left. -/
theorem Has.call (h : b.Has content limit) (hroom : ∀ r ∈ limit, 1 ≤ r) (c : Call) :
    (b.call c).1.Has (content ++ b.written c) (limit.map (· - (b.taken c : Int))) ∧
      ∀ r ∈ limit.map (· - (b.taken c : Int)), 1 ≤ r := by
  have hunchanged : b.Has (content ++ []) (limit.map (· - ((0 : Nat) : Int))) ∧
      ∀ r ∈ limit.map (· - ((0 : Nat) : Int)), 1 ≤ r := by
    simpa using ⟨h, hroom⟩
  cases c with
  | check o => exact hunchanged
  | append o =>
    obtain ⟨-, hzero, e, hcall⟩ | ⟨-, t, htake, hcall⟩ := b.call_cases o
    · rw [written_of_refused (by rw [hcall]), hcall, hzero]
      exact hunchanged
    · obtain ⟨hwithin, hhas⟩ := h.take htake
      refine ⟨?_, one_le_of_within hwithin⟩
      unfold pushObject at hcall
      split at hcall
      · next data hdata =>
        have hwritten : b.written (.append o) = data := by
          simp only [written, hcall, hdata, Option.getD_some]
        rw [hwritten, hcall]
        exact hhas.push data
      · rw [written_of_refused (by rw [hcall]), hcall, List.append_nil]
        exact hhas

/-- An append is refused for want of room or of memory. It changes no content then, and nothing at
all unless memory is what it lacks. -/
theorem Has.refused (h : b.Has content limit) (o : Object) :
    let r := b.call (.append o)
    ((∃ e, r.2 = .error e) ↔ o.memory? = none ∨ ∃ n ∈ limit, ∀ k : Nat, o.length = .ok k → n ≤ k) ∧
    ∀ e, r.2 = .error e → r.1.toBytes = b.toBytes ∧ (o.memory? ≠ none → r.1 = b) := by
  have hroom : b.HasRoom o ↔ ¬ ∃ n ∈ limit, ∀ k : Nat, o.length = .ok k → n ≤ k := by
    rw [h.hasRoom_iff]
    simp only [not_exists, not_and, Classical.not_forall, Int.not_le, exists_prop]
  intro r
  obtain ⟨hnot, -, e, hcall⟩ | ⟨hfits, t, htake, hcall⟩ := b.call_cases o
  · rw [show r = _ from hcall]
    exact ⟨⟨fun _ => .inr (Classical.not_not.1 (mt hroom.2 hnot)), fun _ => ⟨e, rfl⟩⟩,
      fun _ _ => ⟨rfl, fun _ => rfl⟩⟩
  · rw [show r = _ from hcall]
    unfold pushObject
    split
    · next data hdata =>
      refine ⟨⟨fun ⟨e, he⟩ => (by cases he), ?_⟩, fun e he => (by cases he)⟩
      rintro (hnone | hlong)
      · rw [hdata] at hnone
        cases hnone
      · exact absurd hlong (hroom.1 hfits)
    · next hnone =>
      refine ⟨⟨fun _ => .inl hnone, fun _ => ⟨_, rfl⟩⟩, fun _ _ => ⟨?_, fun hsome => absurd hnone hsome⟩⟩
      rw [take_eq htake]
      rfl

/-- Bytes take as much room, where it is limited, as they are written. -/
theorem Has.taken_eq (h : b.Has content limit) {c : Int} (hc : c ∈ limit) {o : Object} (ho : IsBytes o) :
    b.taken (.append o) = (b.written (.append o)).length := by
  obtain ⟨data, hdata, hlength⟩ := ho
  obtain ⟨room, hroom⟩ : ∃ room, b.room = some room := by
    obtain ⟨-, room, hroom, rfl⟩ := h
    obtain ⟨w, rfl, -⟩ := Option.map_eq_some_iff.1 hc
    exact ⟨_, hroom⟩
  rw [taken_of_room hroom hlength]
  obtain ⟨hnot, -, e, hcall⟩ | ⟨hfits, t, -, hcall⟩ := b.call_cases o
  · have hfull : room.atMost data.length = true := by
      cases hless : room.atMost data.length with
      | true => rfl
      | false =>
        refine absurd (fun r hr => ⟨_, hlength, ?_⟩) hnot
        rw [hroom] at hr
        cases hr
        exact hless
    rw [written_of_refused (by rw [hcall]), if_pos hfull]
    rfl
  · obtain ⟨n, hn, hless⟩ := hfits room hroom
    cases hlength.symm.trans hn
    have hwritten : b.written (.append o) = data := by
      simp only [written, hcall, pushObject, hdata, Option.getD_some]
    rw [hwritten, hless]
    rfl

end

/-! ## Runs -/

section

variable {b : Sink} {content : Bytes} {limit : Option Int}

/-- Along a run the content grows by what is written, and the limit shrinks by the room taken. -/
theorem Has.after (h : b.Has content limit) (hroom : ∀ r ∈ limit, 1 ≤ r) (cs : List Call) :
    (b.after cs).Has (content ++ b.writtenBy cs) (limit.map (· - (b.takenBy cs : Int))) ∧
      ∀ r ∈ limit.map (· - (b.takenBy cs : Int)), 1 ≤ r := by
  induction cs generalizing b content limit with
  | nil => simpa [Sink.after, writtenBy, takenBy] using ⟨h, hroom⟩
  | cons c cs ih =>
    obtain ⟨hcall, hleft⟩ := h.call hroom c
    have hrest := ih hcall hleft
    rwa [List.append_assoc, lower_lower] at hrest

/-- If only bytes are offered, a run takes as much room, where it is limited, as it writes. -/
theorem Has.takenBy_eq (h : b.Has content limit) (hroom : ∀ r ∈ limit, 1 ≤ r) {c : Int} (hc : c ∈ limit)
    {cs : List Call} (honly : OnlyBytes cs) : b.takenBy cs = (b.writtenBy cs).length := by
  induction cs generalizing b content limit c with
  | nil => rfl
  | cons call cs ih =>
    obtain ⟨hcall, hleft⟩ := h.call hroom call
    have hrest := ih hcall hleft (Option.mem_map_of_mem _ hc) fun o ho => honly o (.tail _ ho)
    have hfirst : b.taken call = (b.written call).length := by
      cases call with
      | check o => rfl
      | append o => exact h.taken_eq hc (honly o List.mem_cons_self)
    rw [takenBy, writtenBy, List.length_append, hfirst, hrest]

end

/-- A capacity, and the limit that it is: none, or a whole number. -/
inductive IsCapacity : Value → Option Int → Prop where
  | unlimited : IsCapacity .none none
  | limited {capacity : Value} {c : Int} (h : capacity.asInt? = some c) :
      IsCapacity capacity (some c)

theorem IsCapacity.ofCapacity_cases {capacity : Value} {limit : Option Int}
    (h : IsCapacity capacity limit) :
    ((∃ c ∈ limit, c < 1) ∧ ∃ e, ofCapacity capacity = .error e) ∨
    ((∀ c ∈ limit, 1 ≤ c) ∧ ∃ b, ofCapacity capacity = .ok b ∧ b.Has [] limit) := by
  cases h with
  | unlimited => exact .inr ⟨by simp, _, rfl, has_unlimited⟩
  | limited h =>
    obtain ⟨hc, given, he⟩ | ⟨hc, b, hb, hhas⟩ := ofCapacity_of_asInt? h
    · exact .inl ⟨⟨_, rfl, hc⟩, _, he⟩
    · exact .inr ⟨by simpa using hc, b, hb, hhas⟩

/-- A sink is refused exactly for a capacity below one. After any calls it holds the data of the
appends that went well, and the room left is the capacity, less the lengths of the objects that
were offered and fitted; at least one byte of room is left. If only bytes were offered, these
lengths make up what is held. An append is refused exactly for an object without memory, or with
no length below the room left. It leaves the content then, and changes nothing if the object has
memory. A check changes nothing. -/
theorem calls_balance {capacity : Value} {limit : Option Int} (hlimit : IsCapacity capacity limit) :
    ((∃ e, ofCapacity capacity = .error e) ↔ ∃ c ∈ limit, c < 1) ∧
    ∀ b, ofCapacity capacity = .ok b → ∀ cs : List Call,
      let s := b.after cs
      let room := limit.map fun c : Int => c - (b.takenBy cs : Int)
      (s.toBytes = b.writtenBy cs ∧ s.Has (b.writtenBy cs) room) ∧
      (∀ r ∈ room, 1 ≤ r) ∧ (OnlyBytes cs → ∀ c ∈ limit, b.takenBy cs = s.size) ∧
      (∀ o, let r := s.call (.append o)
        ((∃ e, r.2 = .error e) ↔
          o.memory? = none ∨ ∃ n ∈ room, ∀ k : Nat, o.length = .ok k → n ≤ k) ∧
        ∀ e, r.2 = .error e → r.1.toBytes = s.toBytes ∧ (o.memory? ≠ none → r.1 = s)) ∧
      ∀ o, (s.call (.check o)).1 = s := by
  obtain ⟨⟨c, hc, hlow⟩, e, he⟩ | ⟨hleast, b, hb, hempty⟩ := hlimit.ofCapacity_cases
  · refine ⟨⟨fun _ => ⟨c, hc, hlow⟩, fun _ => ⟨e, he⟩⟩, fun b hb => ?_⟩
    rw [he] at hb
    cases hb
  · constructor
    · constructor
      · rintro ⟨e, he⟩
        rw [hb] at he
        cases he
      · rintro ⟨c, hc, hlow⟩
        have := hleast c hc
        omega
    · intro b' hb' cs
      obtain rfl : b = b' := by
        rw [hb] at hb'
        exact Except.ok.inj hb'
      intro s room
      obtain ⟨hhas, hpositive⟩ := hempty.after hleast cs
      rw [List.nil_append] at hhas
      refine ⟨⟨hhas.1, hhas⟩, hpositive, fun honly c hc => ?_, hhas.refused, fun o => rfl⟩
      rw [size_eq, hhas.1]
      exact hempty.takenBy_eq hleast hc honly

/-- Whatever bytes are offered to a sink of nine, it never holds more than eight. -/
theorem size_after_nine :
    ofCapacity (.int 9) = .ok ⟨[], some (.whole (.number 9))⟩ ∧
    ∀ cs, OnlyBytes cs → ((⟨[], some (.whole (.number 9))⟩ : Sink).after cs).size ≤ 8 := by
  have hcapacity : IsCapacity (.int 9) (some 9) := .limited rfl
  refine ⟨rfl, fun cs honly => ?_⟩
  obtain ⟨-, hroom, hbytes, -⟩ := (calls_balance hcapacity).2 _ rfl cs
  have hleft := hroom _ rfl
  have hsize := hbytes honly 9 rfl
  dsimp only at hleft hsize
  omega

/-- A text of two characters is refused by a sink of nine bytes, with seven of them left. Eight
items of four bytes are taken by it, and it holds thirty-two. -/
theorem unbalanced_calls :
    ∃ b e, ofCapacity (.int 9) = .ok b ∧ b.room = some (.whole (.number 9)) ∧
      b.call (.append (.value (.text (Text.ofString "ab")))) =
        ({ b with room := some (.whole (.number 7)) }, .error e) ∧
      (b.call (.append (.view .eightWords))).2 = .ok () ∧
      (b.call (.append (.view .eightWords))).1.size = 32 ∧
      (b.call (.append (.view .eightWords))).1.room = some (.whole (.number 1)) :=
  ⟨_, _, rfl, rfl, rfl, rfl, rfl, rfl⟩

end ColorMarkup.Sink
