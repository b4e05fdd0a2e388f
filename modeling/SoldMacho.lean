import SoldMacho.Basic
import SoldMacho.Rank
import SoldMacho.Resolve
import SoldMacho.Precedence
import SoldMacho.MarkLive
import SoldMacho.Archive
import SoldMacho.Duplicate
import SoldMacho.Split
import SoldMacho.Unwind
import SoldMacho.Parse
import SoldMacho.Binding
import SoldMacho.Placement
import SoldMacho.Common
import SoldMacho.Trie
import SoldMacho.LoadCommand
import SoldMacho.ObjectData
import SoldMacho.ObjectParse
import SoldMacho.Dylib
