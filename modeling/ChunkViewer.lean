import ChunkViewer.Library.AssocList
import ChunkViewer.Library.BitField
import ChunkViewer.Library.Decimal
import ChunkViewer.Library.ExceptRun
import ChunkViewer.Library.LittleEndian
import ChunkViewer.Library.Protocol
import ChunkViewer.Library.Recognizes
import ChunkViewer.Library.RingFill
import ChunkViewer.Library.SpacedWords
import ChunkViewer.Library.Traced
import ChunkViewer.Library.TreeHeap
import ChunkViewer.Model.Chunk
import ChunkViewer.Model.Commands
import ChunkViewer.Model.DrawSlice
import ChunkViewer.Model.NBTTag
import ChunkViewer.Model.ParseBedrock
import ChunkViewer.Model.Slice
import ChunkViewer.Model.TagLookup
import ChunkViewer.Model.TagMemory
import ChunkViewer.Model.Words
import ChunkViewer.Model.WorldData
import ChunkViewer.Model.WorldMemory
import ChunkViewer.Proofs.BlockLookup
import ChunkViewer.Proofs.ChunkBounds
import ChunkViewer.Proofs.ChunkCells
import ChunkViewer.Proofs.ChunkStore
import ChunkViewer.Proofs.ChunkWrites
import ChunkViewer.Proofs.ConsoleProtocol
import ChunkViewer.Proofs.Coordinates
import ChunkViewer.Proofs.DrawBlock
import ChunkViewer.Proofs.DrawSlice
import ChunkViewer.Proofs.FreeMemory
import ChunkViewer.Proofs.FurtherStorages
import ChunkViewer.Proofs.GraphFiles
import ChunkViewer.Proofs.GraphFlags
import ChunkViewer.Proofs.Keys
import ChunkViewer.Proofs.LeakedTags
import ChunkViewer.Proofs.LineIndependence
import ChunkViewer.Proofs.ListDecode
import ChunkViewer.Proofs.LoadOrder
import ChunkViewer.Proofs.LongReads
import ChunkViewer.Proofs.LostTags
import ChunkViewer.Proofs.MadeTags
import ChunkViewer.Proofs.NBTCalls
import ChunkViewer.Proofs.NBTEnds
import ChunkViewer.Proofs.NBTFuel
import ChunkViewer.Proofs.NBTReads
import ChunkViewer.Proofs.NBTRoundTrip
import ChunkViewer.Proofs.NBTShift
import ChunkViewer.Proofs.PaletteAssociation
import ChunkViewer.Proofs.PrintedTags
import ChunkViewer.Proofs.Program
import ChunkViewer.Proofs.ReadStorages
import ChunkViewer.Proofs.Requests
import ChunkViewer.Proofs.SavedPictures
import ChunkViewer.Proofs.SavedSubChunk
import ChunkViewer.Proofs.SavedWorld
import ChunkViewer.Proofs.SliceReads
import ChunkViewer.Proofs.Stops
import ChunkViewer.Proofs.StorageArithmetic
import ChunkViewer.Proofs.StorageHeader
import ChunkViewer.Proofs.StorageLoad
import ChunkViewer.Proofs.StorageOutside
import ChunkViewer.Proofs.StoreInvariant
import ChunkViewer.Proofs.TagGrammar
import ChunkViewer.Proofs.TagMemory
import ChunkViewer.Proofs.TagSearch
import ChunkViewer.Proofs.TextFields
import ChunkViewer.Proofs.Unpacking
import ChunkViewer.Proofs.ValueGrammar
import ChunkViewer.Proofs.WhatAndGraph
import ChunkViewer.Proofs.WhatFlags
import ChunkViewer.Proofs.WorldMemory
import ChunkViewer.Proofs.WorldRefines
import ChunkViewer.Spec.CommandTrace
import ChunkViewer.Spec.ConsoleProtocol
import ChunkViewer.Spec.CoordinateText
import ChunkViewer.Spec.EncodedStorages
import ChunkViewer.Spec.GraphSettings
import ChunkViewer.Spec.ListPayload
import ChunkViewer.Spec.LoadRun
import ChunkViewer.Spec.LostTags
import ChunkViewer.Spec.MemoryRefinement
import ChunkViewer.Spec.NBTTree
import ChunkViewer.Spec.Requests
import ChunkViewer.Spec.SavedWorld
import ChunkViewer.Spec.ShortFields
import ChunkViewer.Spec.SlicePicture
import ChunkViewer.Spec.SubChunk
import ChunkViewer.Spec.TagGrammar
import ChunkViewer.Spec.TagLayout
import ChunkViewer.Spec.TagParts
import ChunkViewer.Spec.ValueGrammar
import ChunkViewer.Spec.World
import ChunkViewer.Spec.WorldOps
