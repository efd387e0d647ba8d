import DocQuery.Obfuscation.Tree

/-!
# Sessions

A session puts stand-ins into trees one after another. All of them share a ledger, so a stand-in
that one tree brings in serves the later ones.
-/

namespace DocQuery

/-- A tree that a session can take. -/
inductive Tree where
  | query (query : Query)
  | scalar (expression : Scalar)

namespace Tree

/-- A tree with stand-ins. -/
def hide : Tree → Hiding Tree
  | .query q => .query <$> q.hide
  | .scalar e => .scalar <$> e.hide

/-- The tree with stand-ins from an empty ledger. -/
def obfuscate (t : Tree) : Tree := (t.hide.run .empty).1

end Tree

/-- The trees of a session with stand-ins. The session begins with an empty ledger. -/
def obfuscateSession (trees : List Tree) : List Tree := ((trees.mapM Tree.hide).run .empty).1

end DocQuery
