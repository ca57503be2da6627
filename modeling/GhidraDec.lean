import GhidraDec.Pcode.Opcode
import GhidraDec.Pcode.Store
import GhidraDec.Pcode.PackedOp
import GhidraDec.Xml.NumericAttribute
import GhidraDec.Funcdata.Linkage
import GhidraDec.Funcdata.Linked
import GhidraDec.Funcdata.LinkageEdit
import GhidraDec.Funcdata.Lessequal
import GhidraDec.Funcdata.FlipInPlace
import GhidraDec.Funcdata.InputVarnode
import GhidraDec.Process.Command
import GhidraDec.Process.Session
import GhidraDec.Funcdata.BlockInsert
import GhidraDec.Funcdata.ReaderWalk
import GhidraDec.Funcdata.ReplaceReads
import GhidraDec.Translate.JoinSpace
import GhidraDec.Print.CharacterData
import GhidraDec.Print.Encoding
import GhidraDec.Funcdata.MapGlobals
import GhidraDec.Funcdata.BlockEdit
import GhidraDec.Funcdata.AdjustInputs
import GhidraDec.Funcdata.SplitUses
import GhidraDec.Funcdata.ReadOnly
import GhidraDec.Funcdata.Cse
import GhidraDec.Print.ReversePolish
import GhidraDec.Funcdata.NZMask
import GhidraDec.Funcdata.AncestorRealistic
import GhidraDec.Funcdata.AncestorEnds
import GhidraDec.Translate.SpaceManager
import GhidraDec.Funcdata.DeadVarnodes
import GhidraDec.Funcdata.FlowScan
import GhidraDec.Translate.JoinAddress
import GhidraDec.Funcdata.SplitVarnode
import GhidraDec.Funcdata.BlockOrder
import GhidraDec.Funcdata.WalkOrder
