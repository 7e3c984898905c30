import Mathlib.Data.List.Basic

namespace MasterAI

section

variable {β : Type*} {isFrame : List β → Prop} {frames : List (List β)} {tail buffered ahead f : List β}
  {delivered : List (List β)}

/-- No frame starts another one. -/
def PrefixFree (isFrame : List β → Prop) : Prop := ∀ ⦃f g⦄, isFrame f → isFrame g → f <+: g → f = g

/-- A byte sequence in which no frame is complete. -/
def Unfinished (isFrame : List β → Prop) (rest : List β) : Prop := ∀ ⦃f⦄, isFrame f → ¬f <+: rest

/-- A stream of frames and an unfinished one is read up to a point: some frames are delivered, some bytes
are buffered and others are still to come. -/
def Progress (frames : List (List β)) (tail : List β) (delivered : List (List β)) (buffered ahead : List β) : Prop :=
  ∃ left, frames = delivered ++ left ∧ buffered ++ ahead = left.flatten ++ tail

theorem Progress.start (frames : List (List β)) (tail : List β) :
    Progress frames tail [] [] (frames.flatten ++ tail) := ⟨frames, rfl, rfl⟩

theorem Progress.read {got : List β} (h : Progress frames tail delivered buffered (got ++ ahead)) :
    Progress frames tail delivered (buffered ++ got) ahead := by
  obtain ⟨left, hframes, hstream⟩ := h
  exact ⟨left, hframes, by rw [List.append_assoc, hstream]⟩

/-- Two frames at the start of one stream are the same frame. -/
theorem PrefixFree.eq (hfree : PrefixFree isFrame) {g stream : List β} (hf : isFrame f) (hg : isFrame g)
    (hfs : f <+: stream) (hgs : g <+: stream) : f = g := by
  rcases List.prefix_or_prefix_of_prefix hfs hgs with h | h
  · exact hfree hf hg h
  · exact (hfree hg hf h).symm

/-- A frame at the head of the buffer is the next frame of the stream. -/
theorem Progress.deliver {rest : List β} (hfree : PrefixFree isFrame) (hframes : ∀ g ∈ frames, isFrame g)
    (htail : Unfinished isFrame tail) (h : Progress frames tail delivered (f ++ rest) ahead) (hf : isFrame f) :
    Progress frames tail (delivered ++ [f]) rest ahead := by
  obtain ⟨left, rfl, hstream⟩ := h
  rw [List.append_assoc] at hstream
  cases left with
  | nil => exact absurd ⟨rest ++ ahead, hstream⟩ (htail hf)
  | cons g left =>
    rw [List.flatten_cons, List.append_assoc] at hstream
    have hg := hframes g (by simp)
    obtain rfl := hfree.eq hf hg (List.prefix_append f _) ⟨_, hstream.symm⟩
    exact ⟨left, by rw [List.append_assoc]; rfl, List.append_cancel_left hstream⟩

/-- What is delivered and buffered when the whole stream is read. -/
theorem Progress.finished (hframes : ∀ g ∈ frames, isFrame g) (hbuffered : Unfinished isFrame buffered)
    (h : Progress frames tail delivered buffered []) : delivered = frames ∧ buffered = tail := by
  obtain ⟨left, rfl, hstream⟩ := h
  rw [List.append_nil] at hstream
  cases left with
  | nil => exact ⟨by simp, by simpa using hstream⟩
  | cons g left =>
    rw [List.flatten_cons, List.append_assoc] at hstream
    exact absurd ⟨_, hstream.symm⟩ (hbuffered (hframes g (by simp)))

/-- The stream that is left starts with a frame or is the unfinished one. -/
theorem Progress.next (hframes : ∀ g ∈ frames, isFrame g) (h : Progress frames tail delivered buffered ahead) :
    (∃ g, isFrame g ∧ g ∈ frames ∧ g <+: buffered ++ ahead) ∨ buffered ++ ahead = tail := by
  obtain ⟨left, rfl, hstream⟩ := h
  cases left with
  | nil => exact Or.inr (by simpa using hstream)
  | cons g left =>
    rw [List.flatten_cons, List.append_assoc] at hstream
    exact Or.inl ⟨g, hframes g (by simp), by simp, ⟨_, hstream.symm⟩⟩

theorem Progress.delivered_initial (h : Progress frames tail delivered buffered ahead) : delivered <+: frames := by
  obtain ⟨left, rfl, -⟩ := h
  exact List.prefix_append delivered left

/-- A part of a frame that is not all of it holds no frame. -/
theorem PrefixFree.unfinished (hfree : PrefixFree isFrame) {part : List β} (hf : isFrame f) (hpart : part <+: f)
    (hne : part ≠ f) : Unfinished isFrame part := by
  intro g hg hgpart
  obtain rfl := hfree hg hf (hgpart.trans hpart)
  exact hne (hpart.eq_of_length_le hgpart.length_le)

end

end MasterAI
