import MasterAI.WrapInt32
import MasterAI.StepRuns
import MasterAI.GameDef
import MasterAI.BettingState
import MasterAI.SidePots
import MasterAI.HandValue
import MasterAI.CyclicScan
import MasterAI.BettingMoves
import MasterAI.TurnOrder
import MasterAI.BettingRuns
import MasterAI.NoLimitBounds
import MasterAI.LimitBetting
import MasterAI.MoneyConservation
import MasterAI.DecimalText
import MasterAI.StateText
import MasterAI.BettingReplay
import MasterAI.PrintedText
import MasterAI.StateRoundTrip
import MasterAI.TextSearch
import MasterAI.ActionInfo
import MasterAI.ActionInfoText
import MasterAI.RunGame
import MasterAI.CfrTransport
import MasterAI.RobotSession
import MasterAI.SessionSteps
import MasterAI.SessionEffects
import MasterAI.SessionRuns
import MasterAI.RequestAnswers
import MasterAI.DecisionPoints
import MasterAI.FinishedHand
import MasterAI.ReplyFreshness
import MasterAI.ResultScores
import MasterAI.RobotReports
import MasterAI.MirroredSessions
import MasterAI.RingWindow
import MasterAI.ShmPipe
import MasterAI.FileReader
import MasterAI.CfrValues
import MasterAI.LinkedChain
import MasterAI.RunGameHashMap
import MasterAI.TypicalCards
import MasterAI.LevelIndex
import MasterAI.PCardTree
import MasterAI.BoardRanges
import MasterAI.FallingOrder
import MasterAI.CanonicalCards
import MasterAI.BoardCounts
import MasterAI.SuitSymmetry
import MasterAI.HandIndex
import MasterAI.RecordedActions
import MasterAI.SavedHistory
import MasterAI.BettingTreeKeys
import MasterAI.TrainSchedule
import MasterAI.TimerThread
import MasterAI.TimerOwnership
import MasterAI.ListFamily
import MasterAI.RingList
import MasterAI.MessageQueues
import MasterAI.SHHashMap
import MasterAI.SHHashMapSound
import MasterAI.Framing
import MasterAI.TcpSocket
import MasterAI.SocketReads
import MasterAI.BinaryFraming
import MasterAI.TextFraming
import MasterAI.PokerHands
import MasterAI.HandEvaluator
import MasterAI.HandScans
import MasterAI.TopRanks
import MasterAI.HandCounts
import MasterAI.HandShows
import MasterAI.HandEvaluatorOrder
import MasterAI.HandEvaluatorValue
import MasterAI.HandEvaluatorStages
import MasterAI.HandEvaluatorPoker
import MasterAI.HandEvaluatorBest
import MasterAI.SharedPreorder
import MasterAI.ActionTree
import MasterAI.BettingDag
import MasterAI.ActionTreeRead
import MasterAI.ActionTreeWalk
import MasterAI.ActionTreeLoaded
import MasterAI.ActionTreeVisits
import MasterAI.ActionTreeRebuilt
import MasterAI.FallingTuples
import MasterAI.HandValueTree
import MasterAI.HandValueTreeDisk
import MasterAI.HandValueTreeQueries
import MasterAI.HandIndexBijection
import MasterAI.CfrReply
import MasterAI.CfrQuery
import MasterAI.CfrKeys
import MasterAI.CandidateScan
import MasterAI.ActionIdxSelector
import MasterAI.RuleFilter
import MasterAI.LargeBetFilter
import MasterAI.HandMaker
import MasterAI.DTRobot
import MasterAI.DTRobotRange
import MasterAI.HighlightCard
import MasterAI.HighlightPicks
import MasterAI.HighlightRanks
import MasterAI.HighlightStraight
import MasterAI.HighlightBest
import MasterAI.HighlightTypes
import MasterAI.HighlightSelection
import MasterAI.LabelOrbits
import MasterAI.SuitOrbits
import MasterAI.MappingOrbits
import MasterAI.BoardOrbits
import MasterAI.RawBoards
import MasterAI.BoardVariants
import MasterAI.DealRawBoards
import MasterAI.ToTypical
import MasterAI.BettingTreeLine
import MasterAI.FailedNotifies
import MasterAI.ParamHandle
import MasterAI.RoundSpent
import MasterAI.TwoPlayerValue
import MasterAI.Base64
import MasterAI.FrameBuffer
import MasterAI.UrlText
import MasterAI.IndependentSteps
import MasterAI.SinglePassRead
import MasterAI.TimerReactor
import MasterAI.ReactorCalls
import MasterAI.FormatReplace
import MasterAI.HandMerge
import MasterAI.ReplaceAll
import MasterAI.BoardCardBounds
import MasterAI.GameTree
import MasterAI.TopPairHand
import MasterAI.PriorityGroups
import MasterAI.ThreadTaskQueue
import MasterAI.AcceptedTexts
import MasterAI.StatesEqual
import MasterAI.SocketRuns
import MasterAI.SocketSends
import MasterAI.TrainInterleaved
import MasterAI.GameFile
import MasterAI.GameFileRoundTrip
import MasterAI.KeyedRuns
import MasterAI.RunGameNodes
import MasterAI.SessionServer
import MasterAI.SessionServerRuns
import MasterAI.SessionsLinearized
