import Outline.Proofs.Resequencing
import Outline.Proofs.Shuffles

/-!
# Independent requests

Requests that have nothing to do with one another may be made in either sequence: moves among the
siblings of different containers, and a move of roots with whatever is asked for about members
(`Outline.Workspace.Valid.independent_interchange`).
-/

namespace Outline

namespace Workspace

variable {w : Workspace}

/-- In a valid workspace, two moves among siblings of different containers, nested or not, may be
made in either sequence, and so may a move of roots and any drop of a member, addition, renaming or
deletion that is allowed: each is accepted before and after the other with the same batches, and the
same workspace is reached. -/
theorem Valid.independent_interchange (valid : w.Valid) :
    (∀ (first second : Session) (here there : Location) (origin origin' : Origin)
        (target target' : Id) (side side' : Side),
      w.classify first.payload here = .ok (.within origin target side) →
      w.classify second.payload there = .ok (.within origin' target' side') →
      origin.container ≠ origin'.container →
      w.Interchange (.drop first here) (.drop second there)) ∧
    ∀ (session : Session) (location : Location) (root target : Id) (side : Side)
        (request : Request),
      w.classify session.payload location = .ok (.ofRoot root target side) →
      request.OfMembers → request.Allowed w →
      w.Interchange (.drop session location) request := by
  refine ⟨fun _ _ _ _ _ _ _ _ _ _ => valid.interchange_siblings, ?_⟩
  intro session location root target side request classified ofMembers allowed
  cases dragged : session.payload with
  | root id => exact valid.interchange_roots dragged classified ofMembers allowed
  | member family origin =>
      rw [dragged] at classified
      cases admits_of_classify classified

/-- Two roots, the first with a folder of two notes and a note beside it. -/
def shelves : Workspace where
  roots := [
    { id := .ofRandom 1, name := "notes", shape := .tree, order := 1, members := [
        { id := .ofRandom 3, name := "drafts", order := 1, kind := .interior, path := ⟨["drafts"]⟩,
          children := [
            { id := .ofRandom 5, name := "plan", order := 1, kind := .leaf,
              path := ⟨["drafts", "plan"]⟩, children := [] },
            { id := .ofRandom 6, name := "draft", order := 2, kind := .leaf,
              path := ⟨["drafts", "draft"]⟩, children := [] }] },
        { id := .ofRandom 4, name := "todo", order := 2, kind := .leaf, path := ⟨["todo"]⟩,
          children := [] }] },
    { id := .ofRandom 2, name := "links", shape := .flatList, order := 2, members := [] }]

/-- The note is moved before the folder and another one inside the folder, and the second root
before the first while the folder is renamed. -/
theorem shelves_interchange :
    let shelf : Container := .ofRoot (.ofRandom 1)
    let folder : Container := .ofNode (.ofRandom 1) (.ofRandom 3)
    let outer := Request.drop (.start (.member .treeNode ⟨shelf, .ofRandom 4⟩))
      (.single (.member shelf (.ofRandom 3)) (.beside .before))
    let inner := Request.drop (.start (.member .treeNode ⟨folder, .ofRandom 6⟩))
      (.single (.member folder (.ofRandom 5)) (.beside .before))
    let roots := Request.drop (.start (.root (.ofRandom 2)))
      (.single (.root (.ofRandom 1)) (.beside .before))
    let retitled := Request.edit (.rename (.ofRandom 3) "archive") (.ofRandom 9)
    shelves.Interchange outer inner ∧ shelves.Interchange roots retitled := by
  intro shelf folder outer inner roots retitled
  have valid : shelves.Valid := ⟨by decide, by decide, by decide⟩
  obtain ⟨siblings, others⟩ := valid.independent_interchange
  exact ⟨siblings _ _ _ _ ⟨shelf, .ofRandom 4⟩ ⟨folder, .ofRandom 6⟩ _ _ .before .before rfl rfl
    (by decide), others _ _ _ _ .before _ rfl trivial ⟨shelf, rfl⟩⟩

end Workspace

end Outline
