import Morsh.Proofs.Delivery

/-!
# The queue law

Among streams that extend one another a diff carries exactly the events that
are missing, and cutting a common front off both ends leaves it as it was. So
it does not matter how often a key repeats or how the encoder groups the keys,
nor by which way a stream is reached.

The four laws are four lemmas, all about streams that extend one another. The
encoder groups adjacent keys, and decoding takes the groups apart again; so a
diff, decoded, is the list of events it was made from, and applying diffs is
appending lists. Subtracting a common front moves both streams by the same amount
and cannot be seen in what one has on top of the other.
-/

namespace Morsh

namespace UserStream

theorem eq_nil_of_group {es : List UserEvent} (h : group es = []) : es = [] := by
  have hevents := (flatMap_group es).1
  rw [h] at hevents
  exact hevents.symm

theorem subtractPrefix_append (ps es : List UserEvent) :
    subtractPrefix ⟨ps ++ es⟩ ⟨ps⟩ = ⟨es⟩ := by
  rw [subtractPrefix, commonPrefixLen_append, List.drop_left]

theorem subtractPrefix_grown {p a c : UserStream} (hpa : p.events <+: a.events)
    (hac : a.events <+: c.events) :
    (a.subtractPrefix p).events <+: (c.subtractPrefix p).events := by
  obtain ⟨ps⟩ := p
  obtain ⟨as⟩ := a
  obtain ⟨cs⟩ := c
  obtain ⟨rest, rfl⟩ := hpa
  obtain ⟨more, rfl⟩ := hac
  rw [subtractPrefix_append]
  simp only [List.append_assoc, subtractPrefix_append]
  exact List.prefix_append rest more

section

variable [ProstMessage UserMessage]

theorem decodeAndApply_encodeDiffFrom {a c : UserStream} (hac : a.events <+: c.events) :
    a.decodeAndApply (c.encodeDiffFrom a) = .ok c := by
  obtain ⟨as⟩ := a
  obtain ⟨cs⟩ := c
  obtain ⟨more, rfl⟩ := hac
  rw [encodeDiffFrom_append, decodeAndApply_group]

theorem encodeDiffFrom_eq_nil {a c : UserStream} (hac : a.events <+: c.events) :
    c.encodeDiffFrom a = [] ↔ c = a := by
  obtain ⟨as⟩ := a
  obtain ⟨cs⟩ := c
  obtain ⟨more, rfl⟩ := hac
  rw [encodeDiffFrom_append]
  constructor
  · intro hnil
    have hgroup := UserMessage.mk.inj (ProstMessage.eq_default_of_encode hnil)
    rw [eq_nil_of_group hgroup, List.append_nil]
  · intro heq
    have hmore : more = [] := List.append_right_eq_self.mp (UserStream.mk.inj heq)
    rw [hmore]
    exact ProstMessage.encode_default

theorem encodeDiffFrom_subtractPrefix {p a c : UserStream} (hpa : p.events <+: a.events)
    (hac : a.events <+: c.events) :
    (c.subtractPrefix p).encodeDiffFrom (a.subtractPrefix p) = c.encodeDiffFrom a := by
  obtain ⟨ps⟩ := p
  obtain ⟨as⟩ := a
  obtain ⟨cs⟩ := c
  obtain ⟨rest, rfl⟩ := hpa
  obtain ⟨more, rfl⟩ := hac
  rw [subtractPrefix_append, encodeDiffFrom_append]
  simp only [List.append_assoc, subtractPrefix_append, encodeDiffFrom_append]

/-- Going to a later stream directly, or by one in between. Where the streams are
prefixes of each other both ways append what the last has beyond the first. -/
theorem decodeAndApply_through {a b c : UserStream} (hab : a.events <+: b.events)
    (hbc : b.events <+: c.events) :
    ((a.decodeAndApply (b.encodeDiffFrom a)).bind fun s => s.decodeAndApply (c.encodeDiffFrom b))
      = a.decodeAndApply (c.encodeDiffFrom a) := by
  rw [decodeAndApply_encodeDiffFrom hab, decodeAndApply_encodeDiffFrom (hab.trans hbc)]
  exact decodeAndApply_encodeDiffFrom hbc

/-- For a stream `a` and any later `c`: the diff takes `a` to `c`, is empty
exactly where they are equal, is unchanged when a common prefix is subtracted
from both, and may be taken in two steps. -/
theorem queue_state_lawful (p a c : UserStream) (hpa : p.events <+: a.events)
    (hac : a.events <+: c.events) :
    State.applyString a (State.diffFrom c a) = .ok c ∧
      (State.diffFrom c a = [] ↔ c = a) ∧
      State.diffFrom (State.subtract c p) (State.subtract a p) = State.diffFrom c a ∧
      State.applyString (State.subtract a p)
          (State.diffFrom (State.subtract c p) (State.subtract a p))
        = .ok (State.subtract c p) ∧
      ∀ b : UserStream, a.events <+: b.events → b.events <+: c.events →
        ((State.applyString a (State.diffFrom b a)).bind fun s =>
            State.applyString s (State.diffFrom c b))
          = State.applyString a (State.diffFrom c a) :=
  ⟨decodeAndApply_encodeDiffFrom hac, encodeDiffFrom_eq_nil hac,
    encodeDiffFrom_subtractPrefix hpa hac,
    decodeAndApply_encodeDiffFrom (subtractPrefix_grown hpa hac),
    fun _ hab hbc => decodeAndApply_through hab hbc⟩

end

/-- A key repeated around two equal resizes. -/
theorem queue_state_lawful_repeats :
    State.applyString (⟨[.userByte 97, .userByte 97]⟩ : UserStream)
        (State.diffFrom
          (⟨[.userByte 97, .userByte 97, .userByte 97, .resize 80 24, .resize 80 24]⟩ : UserStream)
          (⟨[.userByte 97, .userByte 97]⟩ : UserStream))
      = .ok ⟨[.userByte 97, .userByte 97, .userByte 97, .resize 80 24, .resize 80 24]⟩ :=
  (queue_state_lawful ⟨[.userByte 97]⟩ ⟨[.userByte 97, .userByte 97]⟩
    ⟨[.userByte 97, .userByte 97, .userByte 97, .resize 80 24, .resize 80 24]⟩
    ⟨[.userByte 97], rfl⟩ ⟨[.userByte 97, .resize 80 24, .resize 80 24], rfl⟩).1

end UserStream

end Morsh
